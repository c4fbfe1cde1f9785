import RestfulWebserver.Entity.Roots
import RestfulWebserver.Library.Progress

/-!
# How requests on many roots end

Each handler goes through its phases in one order, and under the lock what is
left of its program gets less. A handler that is kept waiting is kept by one that
can go on, so none of the roots can hold up another for good.
-/

namespace RestfulWebserver.Entity.Roots

open RestfulWebserver.Library RestfulWebserver.Http

section Completion

variable {Disk : Type} (perform : (call : FileCall) → Disk → call.Answer × Disk)

def carryOn (state : State Disk) : Event → Option (State Disk)
  | .construct _ _ => none
  | event => step perform state event

def State.Finished (state : State Disk) : Prop :=
  ∀ rooted ∈ state.handlers, ∃ outcome, rooted.handler.phase = .destroyed outcome

/-- The phases of a handler in their order; under the lock, what is left to do
gets less with each answer. -/
inductive Later : Phase → Phase → Prop
  | created (outcome : Except Thrown Unit) : Later (.afterCreate outcome) .constructed
  | requested (mutex : Nat) : Later (.waiting mutex) .ready
  | locked (mutex : Nat) (rest : Program FileCall FileCall.Answer HttpResponse) :
      Later (.running mutex rest) (.waiting mutex)
  | called (mutex : Nat) (call : FileCall)
      (next : call.Answer → Program FileCall FileCall.Answer HttpResponse) (answer : call.Answer) :
      Later (.running mutex (next answer)) (.running mutex (.ask call next))
  | unlocked (mutex : Nat) (response : HttpResponse) :
      Later (.answered (.ok response)) (.running mutex (.done response))
  | destroyed (outcome : Except Thrown HttpResponse) :
      Later (.destroyed outcome) (.answered outcome)

theorem later_accessible_destroyed (outcome : Except Thrown HttpResponse) :
    Acc Later (.destroyed outcome) := by
  constructor
  intro next later
  cases later

theorem later_accessible_answered (outcome : Except Thrown HttpResponse) :
    Acc Later (.answered outcome) := by
  constructor
  intro next later
  cases later with
  | destroyed => exact later_accessible_destroyed outcome

theorem later_accessible_running (mutex : Nat)
    (rest : Program FileCall FileCall.Answer HttpResponse) : Acc Later (.running mutex rest) := by
  induction rest with
  | done response =>
      constructor
      intro next later
      cases later with
      | unlocked => exact later_accessible_answered (.ok response)
  | ask call onward ih =>
      constructor
      intro next later
      cases later with
      | called mutex call onward answer => exact ih answer

theorem later_accessible_waiting (mutex : Nat) : Acc Later (.waiting mutex) := by
  constructor
  intro next later
  cases later with
  | locked mutex rest => exact later_accessible_running mutex rest

theorem later_accessible_ready : Acc Later .ready := by
  constructor
  intro next later
  cases later with
  | requested mutex => exact later_accessible_waiting mutex

theorem later_well_founded : WellFounded Later := by
  constructor
  intro phase
  cases phase with
  | constructed =>
      constructor
      intro next later
      cases later with
      | created outcome =>
          cases outcome with
          | ok created => exact later_accessible_ready
          | error thrown => exact later_accessible_answered (.error thrown)
  | ready => exact later_accessible_ready
  | waiting mutex => exact later_accessible_waiting mutex
  | running mutex rest => exact later_accessible_running mutex rest
  | answered outcome => exact later_accessible_answered outcome
  | destroyed outcome => exact later_accessible_destroyed outcome
  | failed thrown =>
      constructor
      intro next later
      cases later

def FurtherHandler (next rooted : RootedHandler) : Prop :=
  Later next.handler.phase rooted.handler.phase

def Further (next state : State Disk) : Prop :=
  OneBelow FurtherHandler next.handlers state.handlers

theorem further_handler_well_founded : WellFounded FurtherHandler :=
  InvImage.wf (fun rooted : RootedHandler => rooted.handler.phase) later_well_founded

theorem further_well_founded : WellFounded (@Further Disk) :=
  InvImage.wf State.handlers (one_below_well_founded further_handler_well_founded)

section Steps

variable {perform} {state next : State Disk} {event : Event}

theorem step_of_carry_on (carried : carryOn perform state event = some next) :
    step perform state event = some next := by
  cases event with
  | construct root request => cases carried
  | _ => exact carried

theorem further_place {index : Nat} {old : RootedHandler}
    (placed : state.handlers[index]? = some old) {root : Bytes} {request : HttpRequest}
    {phase : Phase} (later : Later phase old.handler.phase) (pool : MutexPool Bytes)
    (holder : Nat → Option Nat) (disk : Disk) :
    Further (State.place ⟨pool, holder, disk, state.handlers⟩ index root request phase) state :=
  one_below_set placed later

theorem carry_on_descends : Descends (carryOn perform) Coherent Further := by
  intro state event next coherent carried
  have move := move_of_step coherent (step_of_carry_on carried)
  refine ⟨coherent_move coherent move, ?_⟩
  cases move with
  | construct root request pool inserted => cases carried
  | create index root request placed => exact further_place placed (.created _) _ _ _
  | request index root request mutex placed stored =>
      exact further_place placed (.requested _) _ _ _
  | lock index root request mutex placed free => exact further_place placed (.locked _ _) _ _ _
  | call index root request mutex call onward placed =>
      exact further_place placed (.called _ _ _ _) _ _ _
  | unlock index root request mutex response placed =>
      exact further_place placed (.unlocked _ _) _ _ _
  | destroy index root request outcome pool placed nonempty erased =>
      exact further_place placed (.destroyed _) _ _ _
  | abandon index request outcome placed => exact further_place placed (.destroyed _) _ _ _

theorem inside_steps {index : Nat} {root : Bytes} {mutex : Nat}
    (inside : state.Inside index root mutex) :
    ∃ event next, carryOn perform state event = some next := by
  obtain ⟨request, rest, placed⟩ := inside
  cases rest with
  | done response =>
      exact ⟨.unlock index, _,
        @step_of_move Disk perform _ _ _ (.unlock index root request mutex response placed)⟩
  | ask call onward =>
      exact ⟨.call index, _, step_of_move (.call index root request mutex call onward placed)⟩

theorem handler_steps (coherent : Coherent state) {index : Nat} {rooted : RootedHandler}
    (placed : state.handlers[index]? = some rooted)
    (unfinished : ¬ ∃ outcome, rooted.handler.phase = .destroyed outcome) :
    ∃ event next, carryOn perform state event = some next := by
  obtain ⟨root, request, phase⟩ := rooted
  have counts := users_pos placed
  cases phase with
  | constructed => exact ⟨.create index, _, step_of_move (.create index root request placed)⟩
  | ready =>
      obtain ⟨mutex, _, stored⟩ :=
        MutexPool.request_tracks (coherent.poolOf.tracks root) (counts rfl)
      exact ⟨.request index, _,
        @step_of_move Disk perform _ _ _ (.request index root request mutex placed stored)⟩
  | waiting mutex =>
      cases held : state.holder mutex with
      | none =>
          exact ⟨.lock index, _,
            @step_of_move Disk perform _ _ _ (.lock index root request mutex placed held)⟩
      | some other => exact inside_steps (awaited_inside coherent ⟨request, placed⟩ held)
  | running mutex rest => exact inside_steps ⟨request, rest, placed⟩
  | answered outcome =>
      by_cases empty : root = []
      · subst empty
        exact ⟨.destroy index, _,
          @step_of_move Disk perform _ _ _ (.abandon index request outcome placed)⟩
      · have positive : 0 < users state.handlers root := counts rfl
        have more : users state.handlers root = users state.handlers root - 1 + 1 := by omega
        obtain ⟨pool, erased, _⟩ := erase_pool coherent.poolOf more
        exact ⟨.destroy index, _,
          @step_of_move Disk perform _ _ _
            (.destroy index root request outcome pool placed empty erased)⟩
  | destroyed outcome => exact absurd ⟨outcome, rfl⟩ unfinished
  | failed thrown => exact (coherent.uses _ (List.mem_of_getElem? placed)).elim

theorem carry_on_never_stuck : NeverStuck (@carryOn Disk perform) Coherent State.Finished := by
  intro state coherent unfinished
  unfold State.Finished at unfinished
  push Not at unfinished
  obtain ⟨rooted, member, left⟩ := unfinished
  obtain ⟨index, placed⟩ := List.mem_iff_getElem?.mp member
  exact handler_steps coherent placed fun ⟨outcome, destroyed⟩ => left outcome destroyed

theorem users_of_finished (finished : state.Finished) {root : Bytes} (nonempty : root ≠ []) :
    users state.handlers root = 0 := by
  rw [users, List.countP_eq_zero]
  intro rooted member counts
  obtain ⟨outcome, destroyed⟩ := finished rooted member
  simp only [RootedHandler.counts, destroyed, Bool.and_eq_true, decide_eq_true_eq,
    List.isEmpty_iff] at counts
  exact nonempty (counts.1.symm.trans counts.2)

theorem emptied_of_finished (coherent : Coherent state) (finished : state.Finished) {root : Bytes}
    (nonempty : root ≠ []) : state.pool.mutexPool.find? root = none ∧
      state.pool.mutexCount.find? root = none := by
  have tracks := coherent.poolOf.tracks root
  rw [users_of_finished finished nonempty] at tracks
  constructor
  · have absent : ¬ state.pool.mutexPool.contains root = true := by
      rw [tracks.present]
      exact Nat.lt_irrefl 0
    simpa [OrderedMap.contains] using absent
  · exact tracks.counted

/-- Handlers never wait for each other in a circle, whatever their roots and
whatever the file system answers: from every state that is reached they can all
be brought to their end, and unless new ones are constructed they come to it
after finitely many steps in any order. The pool is then empty again, but for
the empty root. -/
theorem roots_complete {disk : Disk} {events : List Event}
    (ran : run (step perform) (start disk) events = some state) :
    (∃ later last, run (carryOn perform) state later = some last ∧ last.Finished) ∧
      (∀ states : Nat → State Disk, states 0 = state →
        ¬ ∀ time, ∃ event, carryOn perform (states time) event = some (states (time + 1))) ∧
      ∀ later last, run (carryOn perform) state later = some last →
        (∀ event, carryOn perform last event = none) →
          last.Finished ∧ ∀ root, root ≠ [] → last.pool.mutexPool.find? root = none ∧
            last.pool.mutexCount.find? root = none := by
  have coherent := coherent_run ran
  have descends := @carry_on_descends Disk perform
  refine ⟨?_, ?_, ?_⟩
  · exact run_completes descends further_well_founded carry_on_never_stuck coherent
  · rintro states rfl
    exact no_endless_run descends further_well_founded states coherent
  · intro later last reached stuck
    have kept : Coherent last := by
      apply invariant_of_run coherent _ reached
      intro middle event next holds carried
      exact (descends middle event next holds carried).1
    have finished : last.Finished := by
      by_contra unfinished
      obtain ⟨event, next, carried⟩ := carry_on_never_stuck last kept unfinished
      cases (stuck event).symm.trans carried
    exact ⟨finished, fun root nonempty => emptied_of_finished kept finished nonempty⟩

theorem roots_complete_two :
    ∃ state later last, run (step Tree.perform) (start []) twoRoots = some state ∧
      run (carryOn Tree.perform) state later = some last ∧ last.Finished := by
  have possible : (run (step Tree.perform) (start []) twoRoots).isSome = true := by
    decide +kernel
  obtain ⟨state, ran⟩ := Option.isSome_iff_exists.mp possible
  obtain ⟨later, last, reached, finished⟩ := (roots_complete ran).1
  exact ⟨state, later, last, ran, reached, finished⟩

end Steps

end Completion

end RestfulWebserver.Entity.Roots
