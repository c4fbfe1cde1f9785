import RestfulWebserver.Library.Family
import RestfulWebserver.Server.Machine

/-!
# The server taken apart into its sessions

The server keeps one accept outstanding, whatever became of those before, and is
its sessions side by side otherwise. What sessions have in common, files, mutexes
and workers, shows in the answers of their handlers alone, which are left open.
-/

namespace RestfulWebserver.Server

open RestfulWebserver.Library RestfulWebserver.Http

section Events

variable {Error : Type} {factory : SessionFactory Error}

def acceptErrors : List (Event factory) → List Bool
  | [] => []
  | .accept _ error :: later => error :: acceptErrors later
  | .session _ _ :: later => acceptErrors later

def sessionEvents (index : Nat) : List (Event factory) → List factory.Event
  | [] => []
  | .accept _ _ :: later => sessionEvents index later
  | .session other event :: later =>
      if other = index then event :: sessionEvents index later else sessionEvents index later

/-- The accepts complete in the order of their sessions, and a session takes no
step before its own. -/
def InOrder : Nat → List (Event factory) → Prop
  | _, [] => True
  | accepted, .accept newSession _ :: later => newSession = accepted ∧ InOrder (accepted + 1) later
  | accepted, .session index _ :: later => index < accepted ∧ InOrder accepted later

def Slot.failed? {Session : Type} : Slot Session → Option Bool
  | .pending => none
  | .started _ => some false
  | .discarded => some true

/-- One accept is outstanding, for the session made last; those made before were
started or discarded, as their accepts came out. -/
structure Accepting (state : State factory.State) (errors : List Bool) : Prop where
  outstanding : state.accepts = [errors.length]
  fates : state.sessions.map Slot.failed? = errors.map some ++ [none]

end Events

section Accepting

variable {Error : Type} {factory : SessionFactory Error} {state next : State factory.State}
  {errors : List Bool} {event : Event factory}

theorem sessions_length (accepting : Accepting state errors) :
    state.sessions.length = errors.length + 1 := by
  have counted := congrArg List.length accepting.fates
  simpa using counted

theorem newest_pending (accepting : Accepting state errors) :
    state.sessions[errors.length]? = some .pending := by
  have last : (state.sessions.map Slot.failed?)[errors.length]? = some none := by
    rw [accepting.fates, List.getElem?_append_right (by simp)]
    simp
  rw [List.getElem?_map] at last
  obtain ⟨slot, placed, waits⟩ := Option.map_eq_some_iff.mp last
  cases slot with
  | pending => exact placed
  | started before => cases waits
  | discarded => cases waits

theorem accept_step (accepting : Accepting state errors) (error : Bool) :
    step factory state (.accept errors.length error) =
      some (handleAccept factory { state with accepts := [] } errors.length error) := by
  simp [step, accepting.outstanding, newest_pending accepting]

theorem accepting_accept (accepting : Accepting state errors) (error : Bool) :
    Accepting (handleAccept factory { state with accepts := [] } errors.length error)
      (errors ++ [error]) := by
  have length := sessions_length accepting
  have fates : ∀ slot : Slot factory.State, slot.failed? = some error →
      (state.sessions.set errors.length slot ++ [Slot.pending]).map Slot.failed? =
        (errors ++ [error]).map some ++ [none] := by
    intro slot fate
    rw [List.map_append, List.map_set, accepting.fates, fate,
      List.set_append_right _ _ (by simp)]
    simp [Slot.failed?]
  cases error with
  | true => exact ⟨by simp [handleAccept, startAccept, length], fates .discarded rfl⟩
  | false =>
      exact ⟨by simp [handleAccept, startAccept, length], fates (.started factory.start) rfl⟩

inductive Move (factory : SessionFactory Error) (state : State factory.State)
    (errors : List Bool) : Event factory → State factory.State → Prop
  | accept (error : Bool) :
      Move factory state errors (.accept errors.length error)
        (handleAccept factory { state with accepts := [] } errors.length error)
  | session (index : Nat) (event : factory.Event) (before after : factory.State)
      (placed : state.sessions[index]? = some (.started before))
      (stepped : factory.step index before event = some after) :
      Move factory state errors (.session index event)
        { state with sessions := state.sessions.set index (.started after) }

theorem move_of_step (accepting : Accepting state errors)
    (stepped : step factory state event = some next) : Move factory state errors event next := by
  cases event with
  | accept newSession error =>
      have outstanding : newSession = errors.length := by
        simp only [step] at stepped
        split_ifs at stepped with ready
        rw [accepting.outstanding] at ready
        exact List.mem_singleton.mp ready.1
      subst outstanding
      rw [accept_step accepting] at stepped
      cases stepped
      exact .accept error
  | session index event =>
      simp only [step] at stepped
      split at stepped
      · rename_i before placed
        obtain ⟨after, moved, rfl⟩ := Option.map_eq_some_iff.mp stepped
        exact .session index event before after placed moved
      · cases stepped

theorem step_of_move (accepting : Accepting state errors)
    (move : Move factory state errors event next) : step factory state event = some next := by
  cases move with
  | accept error => exact accept_step accepting error
  | session index event before after placed stepped => simp [step, placed, stepped]

theorem fates_started {sessions : List (Slot factory.State)} {index : Nat} {before : factory.State}
    (placed : sessions[index]? = some (.started before)) (after : factory.State) :
    (sessions.set index (.started after)).map Slot.failed? = sessions.map Slot.failed? := by
  have same : (sessions.map Slot.failed?)[index]? = some (some false) := by
    rw [List.getElem?_map, placed]
    rfl
  obtain ⟨inside, found⟩ := List.getElem?_eq_some_iff.mp same
  have fate : (Slot.started after).failed? = (sessions.map Slot.failed?)[index] := found.symm
  rw [List.map_set, fate, List.set_getElem_self]

theorem accepting_move (accepting : Accepting state errors)
    (move : Move factory state errors event next) :
    Accepting next (errors ++ acceptErrors [event]) := by
  cases move with
  | accept error => exact accepting_accept accepting error
  | session index event before after placed stepped =>
      rw [acceptErrors, acceptErrors, List.append_nil]
      exact ⟨accepting.outstanding, (fates_started placed after).trans accepting.fates⟩

theorem accept_errors_append (before after : List (Event factory)) :
    acceptErrors (before ++ after) = acceptErrors before ++ acceptErrors after := by
  induction before with
  | nil => rfl
  | cons event before ih =>
      cases event with
      | accept newSession error => simp [acceptErrors, ih]
      | session index event => exact ih

theorem accepting_constructed : Accepting (constructed : State factory.State) [] := ⟨rfl, rfl⟩

theorem accepting_run {events : List (Event factory)}
    (ran : run (step factory) constructed events = some state) :
    Accepting state (acceptErrors events) := by
  induction events using List.reverseRecOn generalizing state with
  | nil =>
      cases ran
      exact accepting_constructed
  | append_singleton events event ih =>
      obtain ⟨middle, reached, stepped⟩ := run_snoc_eq_some ran
      have before := ih reached
      rw [accept_errors_append]
      exact accepting_move before (move_of_step before stepped)

/-- In every state that the server reaches, one accept is outstanding, for the
session made last. Those made before were started or discarded as their accepts
came out, in the same order; and the outstanding one may come out either way. -/
theorem one_accept_outstanding (factory : SessionFactory Error) {events : List (Event factory)}
    {state : State factory.State} (ran : run (step factory) constructed events = some state) :
    state.accepts = [(acceptErrors events).length] ∧
      state.sessions.map Slot.failed? = (acceptErrors events).map some ++ [none] ∧
      ∀ error, ∃ next, step factory state (.accept (acceptErrors events).length error) = some next :=
  ⟨(accepting_run ran).outstanding, (accepting_run ran).fates,
    fun error => ⟨_, accept_step (accepting_run ran) error⟩⟩

end Accepting

def bareService : Service Empty := ⟨OrderedMap.empty, fun _ _ _ _ _ => .ok Session.notFoundResponse⟩

/-- After a failed accept the next connection is taken. -/
theorem one_accept_outstanding_after_failure :
    ∃ state, run (step bareService.factory) constructed [.accept 0 true, .accept 1 false] = some state ∧
      state.accepts = [2] ∧ state.sessions.map Slot.failed? = [some true, some false, none] := by
  have ran : run (step bareService.factory) constructed [.accept 0 true, .accept 1 false] =
      some ⟨[.discarded, .started Session.start, .pending], [2]⟩ := rfl
  obtain ⟨outstanding, fates, _⟩ := one_accept_outstanding bareService.factory ran
  exact ⟨_, ran, outstanding, fates⟩

/-! ## Side by side -/

section SideBySide

inductive SlotEvent (SessionEvent : Type) where
  | accepted (error : Bool)
  | session (event : SessionEvent)

variable {Error : Type} (factory : SessionFactory Error)

/-- A session by itself, with the accept that it waits for. -/
def slotStep (index : Nat) :
    Slot factory.State → SlotEvent factory.Event → Option (Slot factory.State)
  | .pending, .accepted error => some (if error then .discarded else .started factory.start)
  | .started before, .session event =>
      (factory.step index before event).map .started
  | _, _ => none

def Event.translate {factory : SessionFactory Error} :
    Event factory → List (FamilyEvent (SlotEvent factory.Event))
  | .accept newSession error => [.act newSession (.accepted error), .join]
  | .session index event => [.act index (.session event)]

variable {factory} {state last : State factory.State} {errors : List Bool}
  {events : List (Event factory)}

theorem accept_translated (accepting : Accepting state errors) (error : Bool)
    (later : List (FamilyEvent (SlotEvent factory.Event))) :
    run (familyStep .pending (slotStep factory)) state.sessions
        ((Event.accept errors.length error).translate ++ later) =
      run (familyStep .pending (slotStep factory))
        (handleAccept factory { state with accepts := [] } errors.length error).sessions later := by
  have accepted : slotStep factory errors.length .pending (.accepted error) =
      some (if error then .discarded else .started factory.start) := rfl
  rw [Event.translate, List.cons_append, run_cons_of_step _ (family_act (newest_pending accepting)
    accepted), List.cons_append, run_cons_of_step _ rfl, List.nil_append]
  cases error <;> rfl

theorem session_translated {index : Nat} {event : factory.Event} {before after : factory.State}
    (placed : state.sessions[index]? = some (.started before))
    (taken : factory.step index before event = some after)
    (later : List (FamilyEvent (SlotEvent factory.Event))) :
    run (familyStep .pending (slotStep factory)) state.sessions
        ((Event.session index event).translate ++ later) =
      run (familyStep .pending (slotStep factory)) (state.sessions.set index (.started after))
        later := by
  have moved : slotStep factory index (.started before) (.session event) =
      some (.started after) := by
    rw [slotStep, taken]
    rfl
  rw [Event.translate, List.cons_append, run_cons_of_step _ (family_act placed moved),
    List.nil_append]

theorem started_accepted (accepting : Accepting state errors) {index : Nat}
    {before : factory.State} (placed : state.sessions[index]? = some (.started before)) :
    index < errors.length := by
  have fate : (state.sessions.map Slot.failed?)[index]? = some (some false) := by
    rw [List.getElem?_map, placed]
    rfl
  by_contra beyond
  rw [accepting.fates, List.getElem?_append_right (by simpa using beyond)] at fate
  have member := List.mem_of_getElem? fate
  cases List.mem_singleton.mp member

/-- A run of the server is a run of its sessions side by side. -/
theorem run_iff_family (accepting : Accepting state errors) :
    run (step factory) state events = some last ↔
      InOrder errors.length events ∧
        last.accepts = [errors.length + (acceptErrors events).length] ∧
        run (familyStep .pending (slotStep factory)) state.sessions
          (events.flatMap Event.translate) = some last.sessions := by
  induction events generalizing state errors with
  | nil =>
      constructor
      · intro ran
        cases ran
        exact ⟨trivial, accepting.outstanding, rfl⟩
      · rintro ⟨_, accepts, same⟩
        obtain ⟨sessions, outstanding⟩ := last
        cases same
        have equal : state.accepts = outstanding := accepting.outstanding.trans accepts.symm
        rw [run_nil, ← equal]
  | cons event events ih =>
      cases event with
      | accept newSession error =>
          have number : (errors ++ [error]).length + (acceptErrors events).length =
              errors.length + ((acceptErrors events).length + 1) := by
            simp only [List.length_append, List.length_singleton]
            omega
          have onward := ih (accepting_accept accepting error)
          rw [number, List.length_append, List.length_singleton] at onward
          constructor
          · intro ran
            obtain ⟨next, stepped, later⟩ := run_cons_eq_some ran
            cases move_of_step accepting stepped with
            | accept =>
                obtain ⟨ordered, accepts, family⟩ := onward.mp later
                refine ⟨⟨rfl, ordered⟩, accepts, ?_⟩
                rw [List.flatMap_cons, accept_translated accepting]
                exact family
          · rintro ⟨⟨rfl, ordered⟩, accepts, family⟩
            rw [List.flatMap_cons, accept_translated accepting] at family
            rw [run_cons_of_step events (accept_step accepting error)]
            exact onward.mpr ⟨ordered, accepts, family⟩
      | session index event =>
          constructor
          · intro ran
            obtain ⟨next, stepped, later⟩ := run_cons_eq_some ran
            have move := move_of_step accepting stepped
            have stays := accepting_move accepting move
            rw [acceptErrors, acceptErrors, List.append_nil] at stays
            obtain ⟨ordered, accepts, family⟩ := (ih stays).mp later
            cases move with
            | session index event before after placed taken =>
                refine ⟨⟨started_accepted accepting placed, ordered⟩, accepts, ?_⟩
                rw [List.flatMap_cons, session_translated placed taken]
                exact family
          · rintro ⟨⟨_, ordered⟩, accepts, family⟩
            rw [List.flatMap_cons, Event.translate, List.cons_append, List.nil_append] at family
            obtain ⟨sessions, acted, later⟩ := run_cons_eq_some family
            obtain ⟨slot, moved, placed, stepped, rfl⟩ := family_act_some acted
            cases slot with
            | pending => cases stepped
            | discarded => cases stepped
            | started before =>
                obtain ⟨after, sessionStepped, rfl⟩ := Option.map_eq_some_iff.mp stepped
                have move : Move factory state errors (.session index event) _ :=
                  .session index event before after placed sessionStepped
                have stays := accepting_move accepting move
                rw [acceptErrors, acceptErrors, List.append_nil] at stays
                rw [run_cons_of_step events (step_of_move accepting move)]
                exact (ih stays).mpr ⟨ordered, accepts, later⟩

theorem timely_of_in_order {accepted : Nat} (ordered : InOrder accepted events) :
    Timely (accepted + 1) (events.flatMap Event.translate) := by
  induction events generalizing accepted with
  | nil => trivial
  | cons event events ih =>
      cases event with
      | accept newSession error =>
          obtain ⟨rfl, later⟩ := ordered
          exact ⟨Nat.lt_succ_self newSession, ih later⟩
      | session index event => exact ⟨Nat.lt_succ_of_lt ordered.1, ih ordered.2⟩

theorem joins_translated (events : List (Event factory)) :
    joins (events.flatMap Event.translate) = (acceptErrors events).length := by
  induction events with
  | nil => rfl
  | cons event events ih =>
      rw [List.flatMap_cons, joins_append, ih]
      cases event with
      | accept newSession error =>
          rw [acceptErrors, List.length_cons]
          exact Nat.add_comm 1 _
      | session index event => exact Nat.zero_add _

/-- Of the whole sequence, a session gets its accept and then its own events. -/
theorem events_translated {accepted : Nat} (ordered : InOrder accepted events) (index : Nat) :
    eventsOf index (events.flatMap Event.translate) =
      if index < accepted then (sessionEvents index events).map .session
      else match (acceptErrors events)[index - accepted]? with
        | some error => .accepted error :: (sessionEvents index events).map .session
        | none => [] := by
  induction events generalizing accepted with
  | nil => simp [eventsOf, sessionEvents, acceptErrors]
  | cons event events ih =>
      rw [List.flatMap_cons, events_of_append]
      cases event with
      | accept newSession error =>
          obtain ⟨rfl, later⟩ := ordered
          rw [ih later, sessionEvents, acceptErrors]
          simp only [Event.translate, eventsOf]
          rcases Nat.lt_trichotomy index newSession with before | here | beyond
          · rw [if_neg (by omega), if_pos (by omega), if_pos before]
            rfl
          · subst here
            rw [if_pos rfl, if_pos (by omega), if_neg (by omega), Nat.sub_self]
            rfl
          · have further : index - newSession = index - (newSession + 1) + 1 := by omega
            rw [if_neg (by omega), if_neg (by omega), if_neg (by omega), further]
            rfl
      | session other event =>
          obtain ⟨early, later⟩ := ordered
          rw [ih later, sessionEvents, acceptErrors]
          simp only [Event.translate, eventsOf]
          by_cases names : other = index
          · subst names
            rw [if_pos rfl, if_pos early, if_pos rfl, if_pos early]
            rfl
          · rw [if_neg names, if_neg names, List.nil_append]

inductive SlotAfter (factory : SessionFactory Error) (events : List (Event factory))
    (index : Nat) : Slot factory.State → Prop
  | pending (outstanding : (acceptErrors events)[index]? = none) :
      SlotAfter factory events index .pending
  | discarded (failed : (acceptErrors events)[index]? = some true)
      (silent : sessionEvents index events = []) : SlotAfter factory events index .discarded
  | started (state : factory.State) (succeeded : (acceptErrors events)[index]? = some false)
      (ran : run (factory.step index) factory.start
        (sessionEvents index events) = some state) :
      SlotAfter factory events index (.started state)

theorem started_run {index : Nat} {before : factory.State} {own : List factory.Event}
    {slot : Slot factory.State} :
    run (slotStep factory index) (.started before) (own.map .session) = some slot ↔
      ∃ after, slot = .started after ∧
        run (factory.step index) before own = some after := by
  induction own generalizing before with
  | nil =>
      constructor
      · intro ran
        cases ran
        exact ⟨before, rfl, rfl⟩
      · rintro ⟨after, rfl, ran⟩
        cases ran
        rfl
  | cons event own ih =>
      cases moved : factory.step index before event with
      | none => simp [run, slotStep, moved]
      | some next =>
          have slotMoved : slotStep factory index (.started before) (.session event) =
              some (.started next) := by
            rw [slotStep, moved]
            rfl
          rw [List.map_cons, run_cons_of_step _ slotMoved, run_cons_of_step _ moved, ih]

theorem discarded_run {index : Nat} {own : List factory.Event} {slot : Slot factory.State} :
    run (slotStep factory index) .discarded (own.map .session) = some slot ↔
      own = [] ∧ slot = .discarded := by
  cases own with
  | nil => simp [eq_comm]
  | cons event own => simp [run, slotStep]

theorem slot_run_iff (ordered : InOrder 0 events) (index : Nat) {slot : Slot factory.State} :
    run (slotStep factory index) .pending (eventsOf index (events.flatMap Event.translate)) =
        some slot ↔ SlotAfter factory events index slot := by
  rw [events_translated ordered, if_neg (Nat.not_lt_zero index), Nat.sub_zero]
  cases outcome : (acceptErrors events)[index]? with
  | none =>
      constructor
      · intro ran
        cases ran
        exact .pending outcome
      · intro after
        cases after with
        | pending => rfl
        | discarded failed => cases outcome.symm.trans failed
        | started state succeeded => cases outcome.symm.trans succeeded
  | some error =>
      cases error with
      | true =>
          have accepted : slotStep factory index .pending (.accepted true) = some .discarded := rfl
          simp only
          rw [run_cons_of_step _ accepted, discarded_run]
          constructor
          · rintro ⟨silent, rfl⟩
            exact .discarded outcome silent
          · intro after
            cases after with
            | pending outstanding => cases outcome.symm.trans outstanding
            | discarded failed silent => exact ⟨silent, rfl⟩
            | started state succeeded => cases outcome.symm.trans succeeded
      | false =>
          have accepted : slotStep factory index .pending (.accepted false) =
              some (.started factory.start) := rfl
          simp only
          rw [run_cons_of_step _ accepted, started_run]
          constructor
          · rintro ⟨state, rfl, ran⟩
            exact .started state outcome ran
          · intro after
            cases after with
            | pending outstanding => cases outcome.symm.trans outstanding
            | discarded failed => cases outcome.symm.trans failed
            | started state succeeded ran => exact ⟨state, rfl, ran⟩

theorem fresh_slot {Session : Type} (index : Nat) :
    memberAt .pending (constructed : State Session).sessions index = .pending := by
  cases index <;> rfl

theorem slots_after (ran : run (step factory) constructed events = some last) {index : Nat}
    {slot : Slot factory.State} (placed : last.sessions[index]? = some slot) :
    SlotAfter factory events index slot := by
  obtain ⟨ordered, _, family⟩ := (run_iff_family accepting_constructed).mp ran
  have own := (family_run_iff.mp family).each index slot placed
  rw [fresh_slot] at own
  exact (slot_run_iff ordered index).mp own

/-- The runs of the server are those in which the accepts complete one after
another, and each session that got a connection makes a run with its own events. -/
theorem sessions_side_by_side (factory : SessionFactory Error) (events : List (Event factory))
    (last : State factory.State) :
    run (step factory) constructed events = some last ↔
      InOrder 0 events ∧ last.accepts = [(acceptErrors events).length] ∧
        last.sessions.length = (acceptErrors events).length + 1 ∧
        ∀ index slot, last.sessions[index]? = some slot → SlotAfter factory events index slot := by
  constructor
  · intro ran
    obtain ⟨ordered, _, _⟩ := (run_iff_family accepting_constructed).mp ran
    have accepting := accepting_run ran
    exact ⟨ordered, accepting.outstanding, sessions_length accepting,
      fun index slot placed => slots_after ran placed⟩
  · rintro ⟨ordered, accepts, size, each⟩
    rw [run_iff_family accepting_constructed, family_run_iff, List.length_nil, Nat.zero_add]
    refine ⟨ordered, accepts, timely_of_in_order ordered, ?_, ?_⟩
    · rw [size, joins_translated]
      exact Nat.add_comm _ 1
    · intro index slot placed
      rw [fresh_slot]
      exact (slot_run_iff ordered index).mpr (each index slot placed)

end SideBySide

end RestfulWebserver.Server
