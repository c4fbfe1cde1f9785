import RestfulWebserver.Library.Family
import RestfulWebserver.Library.Progress

/-!
# The worker threads

`init_threads` on an `io_service` that others have given work to. Every worker
sits in `io_service.run()`, which takes up one completed operation after another
and runs its handler; it returns once the service is stopped, and an exception
of a handler leaves it. The service is stopped by `stop()`, or when it runs out
of work: the guard that `main` holds counts as work.
-/

namespace RestfulWebserver.Startup.ThreadPool

open RestfulWebserver.Library

inductive Worker (Error : Type) where
  /-- In `io_service.run()`, between two handlers. -/
  | idle
  | busy
  /-- `promise.set_value()` -/
  | exited
  /-- `promise.set_exception(std::current_exception())` -/
  | failed (error : Error)

structure State (Error : Type) where
  stopped : Bool
  /-- Whether `signals.async_wait` is outstanding. -/
  awaitsSignal : Bool
  /-- The other outstanding operations that no worker has taken up. -/
  operations : Nat
  workers : List (Worker Error)
  /-- How many of the workers the main thread has joined. -/
  joined : Nat
  /-- What `init_threads` has returned or thrown. -/
  outcome : Option (Except Error Unit)

inductive Event (Error : Type) where
  /-- `thread_pool.emplace_back` -/
  | spawn
  /-- A worker takes up a completed operation. -/
  | take (index : Nat)
  /-- Its handler returns or throws, after it has started further operations. -/
  | finish (index started : Nat) (thrown : Option Error)
  /-- A worker runs the handler of the signal set. -/
  | signal (index : Nat) (error : Bool)
  /-- `io_service.run()` returns. -/
  | leave (index : Nat)
  | join
  /-- The last loop, over the futures. -/
  | collect

section Steps

variable {Error : Type}

def start (operations : Nat) : State Error where
  stopped := false
  awaitsSignal := true
  operations := operations
  workers := []
  joined := 0
  outcome := none

def Worker.ended : Worker Error → Bool
  | .exited => true
  | .failed _ => true
  | _ => false

def Worker.isBusy : Worker Error → Bool
  | .busy => true
  | _ => false

def Worker.error? : Worker Error → Option Error
  | .failed error => some error
  | _ => none

def outOfWork (guarded : Bool) (state : State Error) : Bool :=
  !guarded && !state.awaitsSignal && state.operations == 0 && !state.workers.any Worker.isBusy

/-- The service stops itself when the last work is done. -/
def settle (guarded : Bool) (state : State Error) : State Error :=
  { state with stopped := state.stopped || outOfWork guarded state }

def afterHandler : Option Error → Worker Error
  | none => .idle
  | some error => .failed error

/-- `except_futures[i].get()` for one future after another. A future whose worker
has not ended would be waited for. -/
def collectFutures : List (Worker Error) → Option (Except Error Unit)
  | [] => some (.ok ())
  | .exited :: later => collectFutures later
  | .failed error :: _ => some (.error error)
  | _ :: _ => none

def step (guarded : Bool) (numThreads : Nat) (state : State Error) :
    Event Error → Option (State Error)
  | .spawn =>
      if state.workers.length < numThreads then
        some { state with workers := state.workers ++ [.idle] }
      else none
  | .take index =>
      match state.workers[index]? with
      | some .idle =>
          if state.stopped = false ∧ 0 < state.operations then
            some { state with
              operations := state.operations - 1
              workers := state.workers.set index .busy }
          else none
      | _ => none
  | .finish index started thrown =>
      match state.workers[index]? with
      | some .busy =>
          some (settle guarded { state with
            operations := state.operations + started
            workers := state.workers.set index (afterHandler thrown) })
      | _ => none
  | .signal index error =>
      match state.workers[index]? with
      | some .idle =>
          if state.stopped = false ∧ state.awaitsSignal = true then
            some (settle guarded { state with awaitsSignal := false, stopped := !error })
          else none
      | _ => none
  | .leave index =>
      match state.workers[index]? with
      | some .idle =>
          if state.stopped then some { state with workers := state.workers.set index .exited }
          else none
      | _ => none
  | .join =>
      -- the loop over the threads begins when all have been created
      if state.workers.length = numThreads then
        match state.workers[state.joined]? with
        | some worker =>
            if worker.ended then some { state with joined := state.joined + 1 } else none
        | none => none
      else none
  | .collect =>
      if state.workers.length = numThreads ∧ state.joined = numThreads ∧
          state.outcome.isNone then
        (collectFutures state.workers).map fun result => { state with outcome := some result }
      else none

inductive Move (guarded : Bool) (numThreads : Nat) (state : State Error) :
    Event Error → State Error → Prop
  | spawn (room : state.workers.length < numThreads) :
      Move guarded numThreads state .spawn { state with workers := state.workers ++ [.idle] }
  | take (index : Nat) (placed : state.workers[index]? = some .idle)
      (running : state.stopped = false) (ready : 0 < state.operations) :
      Move guarded numThreads state (.take index)
        { state with
          operations := state.operations - 1
          workers := state.workers.set index .busy }
  | finish (index started : Nat) (thrown : Option Error)
      (placed : state.workers[index]? = some .busy) :
      Move guarded numThreads state (.finish index started thrown)
        (settle guarded { state with
          operations := state.operations + started
          workers := state.workers.set index (afterHandler thrown) })
  | signal (index : Nat) (error : Bool) (placed : state.workers[index]? = some .idle)
      (running : state.stopped = false) (awaited : state.awaitsSignal = true) :
      Move guarded numThreads state (.signal index error)
        (settle guarded { state with awaitsSignal := false, stopped := !error })
  | leave (index : Nat) (placed : state.workers[index]? = some .idle)
      (stopped : state.stopped = true) :
      Move guarded numThreads state (.leave index)
        { state with workers := state.workers.set index .exited }
  | join (worker : Worker Error) (full : state.workers.length = numThreads)
      (placed : state.workers[state.joined]? = some worker) (ended : worker.ended = true) :
      Move guarded numThreads state .join { state with joined := state.joined + 1 }
  | collect (result : Except Error Unit) (full : state.workers.length = numThreads)
      (joined : state.joined = numThreads) (open_ : state.outcome = none)
      (collected : collectFutures state.workers = some result) :
      Move guarded numThreads state .collect { state with outcome := some result }

variable {guarded : Bool} {numThreads : Nat} {state next : State Error} {event : Event Error}

theorem move_of_step (stepped : step guarded numThreads state event = some next) :
    Move guarded numThreads state event next := by
  cases event with
  | spawn =>
      simp only [step] at stepped
      split_ifs at stepped with room
      cases stepped
      exact .spawn room
  | take index =>
      simp only [step] at stepped
      split at stepped
      · rename_i placed
        split_ifs at stepped with ready
        cases stepped
        exact .take index placed ready.1 ready.2
      · cases stepped
  | finish index started thrown =>
      simp only [step] at stepped
      split at stepped
      · rename_i placed
        cases stepped
        exact .finish index started thrown placed
      · cases stepped
  | signal index error =>
      simp only [step] at stepped
      split at stepped
      · rename_i placed
        split_ifs at stepped with ready
        cases stepped
        exact .signal index error placed ready.1 ready.2
      · cases stepped
  | leave index =>
      simp only [step] at stepped
      split at stepped
      · rename_i placed
        split_ifs at stepped with stopped
        cases stepped
        exact .leave index placed stopped
      · cases stepped
  | join =>
      simp only [step] at stepped
      split_ifs at stepped with full
      split at stepped
      · rename_i worker placed
        split_ifs at stepped with ended
        cases stepped
        exact .join worker full placed ended
      · cases stepped
  | collect =>
      simp only [step] at stepped
      split_ifs at stepped with ready
      obtain ⟨result, collected, rfl⟩ := Option.map_eq_some_iff.mp stepped
      exact .collect result ready.1 ready.2.1 (Option.isNone_iff_eq_none.mp ready.2.2) collected

theorem step_of_move (move : Move guarded numThreads state event next) :
    step guarded numThreads state event = some next := by
  cases move with
  | spawn room => simp [step, room]
  | take index placed running ready => simp [step, placed, running, ready]
  | finish index started thrown placed => simp [step, placed]
  | signal index error placed running awaited => simp [step, placed, running, awaited]
  | leave index placed stopped => simp [step, placed, stopped]
  | join worker full placed ended => simp [step, full, placed, ended]
  | collect result full joined running collected => simp [step, full, joined, running, collected]

end Steps

/-! ## What the main thread sees -/

section Joining

variable {Error : Type} {guarded : Bool} {numThreads : Nat} {state next : State Error}
  {event : Event Error}

/-- The main thread has joined only workers that have ended, and what it has
returned or thrown is what their futures hold. -/
structure Sound (numThreads : Nat) (state : State Error) : Prop where
  size : state.workers.length ≤ numThreads
  full : 0 < state.joined → state.workers.length = numThreads
  inside : state.joined ≤ state.workers.length
  ended : ∀ index worker, state.workers[index]? = some worker → index < state.joined →
    worker.ended = true
  result : ∀ result, state.outcome = some result → state.workers.length = numThreads ∧
    state.joined = numThreads ∧ collectFutures state.workers = some result

theorem sound_start (numThreads operations : Nat) :
    Sound numThreads (start operations : State Error) where
  size := Nat.zero_le _
  full := by simp [start]
  inside := Nat.le_refl 0
  ended := by simp [start]
  result := by simp [start]

/-- A worker that goes on has not been joined, and `init_threads` is not over. -/
theorem still_waited_for (sound : Sound numThreads state) {index : Nat} {worker : Worker Error}
    (placed : state.workers[index]? = some worker) (active : worker.ended = false) :
    state.joined ≤ index ∧ state.outcome = none := by
  have unjoined : state.joined ≤ index := by
    by_contra joined
    have finished := sound.ended index worker placed (Nat.lt_of_not_le joined)
    rw [active] at finished
    cases finished
  refine ⟨unjoined, ?_⟩
  cases returned : state.outcome with
  | none => rfl
  | some result =>
      obtain ⟨full, all, _⟩ := sound.result result returned
      obtain ⟨inside, _⟩ := List.getElem?_eq_some_iff.mp placed
      omega

theorem sound_set (sound : Sound numThreads state) {index : Nat} {worker : Worker Error}
    (placed : state.workers[index]? = some worker) (active : worker.ended = false)
    (later : Worker Error) (stopped awaitsSignal : Bool) (operations : Nat) :
    Sound numThreads ⟨stopped, awaitsSignal, operations, state.workers.set index later,
      state.joined, state.outcome⟩ := by
  obtain ⟨unjoined, running⟩ := still_waited_for sound placed active
  constructor
  · rw [List.length_set]
    exact sound.size
  · rw [List.length_set]
    exact sound.full
  · rw [List.length_set]
    exact sound.inside
  · intro other found stored early
    have early' : other < state.joined := early
    rw [List.getElem?_set_ne (by omega)] at stored
    exact sound.ended other found stored early
  · intro result returned
    cases running.symm.trans returned

theorem sound_move (sound : Sound numThreads state)
    (move : Move guarded numThreads state event next) : Sound numThreads next := by
  cases move with
  | spawn room =>
      have none_joined : state.joined = 0 := by
        by_contra some_joined
        have full := sound.full (Nat.pos_of_ne_zero some_joined)
        omega
      constructor
      · simp only [List.length_append, List.length_singleton]
        omega
      · intro some_joined
        exact absurd none_joined (Nat.pos_iff_ne_zero.mp some_joined)
      · exact none_joined ▸ Nat.zero_le _
      · intro index worker _ early
        have early' : index < state.joined := early
        omega
      · intro result returned
        have full := (sound.result result returned).1
        omega
  | take index placed => exact sound_set sound placed rfl .busy _ _ _
  | finish index started thrown placed => exact sound_set sound placed rfl _ _ _ _
  | signal index error placed => exact ⟨sound.size, sound.full, sound.inside, sound.ended, sound.result⟩
  | leave index placed => exact sound_set sound placed rfl .exited _ _ _
  | join worker full placed done =>
      obtain ⟨inside, _⟩ := List.getElem?_eq_some_iff.mp placed
      constructor
      · exact sound.size
      · exact fun _ => full
      · exact inside
      · intro index found stored early
        rcases Nat.lt_succ_iff_lt_or_eq.mp early with before | here
        · exact sound.ended index found stored before
        · subst here
          cases placed.symm.trans stored
          exact done
      · intro result returned
        have all := (sound.result result returned).2.1
        omega
  | collect result full joined running collected =>
      refine ⟨sound.size, sound.full, sound.inside, sound.ended, ?_⟩
      intro other returned
      cases returned
      exact ⟨full, joined, collected⟩

theorem sound_run {operations : Nat} {events : List (Event Error)}
    (ran : run (step guarded numThreads) (start operations) events = some state) :
    Sound numThreads state := by
  apply invariant_of_run (sound_start numThreads operations) _ ran
  intro state event next sound stepped
  exact sound_move sound (move_of_step stepped)

/-! ## Why a worker ends -/

def Event.thrown? : Event Error → Option Error
  | .finish _ _ thrown => thrown
  | _ => none

def Event.stops : Event Error → Bool
  | .signal _ error => !error
  | _ => false

def thrownBy (events : List (Event Error)) : List Error := events.filterMap Event.thrown?

def signalled (events : List (Event Error)) : Bool := events.any Event.stops

/-- Every exception has ended one worker, and a worker that has ended without
one had seen the service stopped; with the guard, only a signal stops it. -/
structure Accounted (guarded : Bool) (state : State Error) (events : List (Event Error)) : Prop where
  errors : (state.workers.filterMap Worker.error?).Perm (thrownBy events)
  exited : .exited ∈ state.workers → state.stopped = true
  guard : guarded = true → state.stopped = signalled events

theorem errors_set {workers : List (Worker Error)} {index : Nat} {worker : Worker Error}
    (placed : workers[index]? = some worker) (active : worker.error? = none) (later : Worker Error) :
    ((workers.set index later).filterMap Worker.error?).Perm
      (workers.filterMap Worker.error? ++ later.error?.toList) := by
  obtain ⟨inside, found⟩ := List.getElem?_eq_some_iff.mp placed
  have split : workers = workers.take index ++ worker :: workers.drop (index + 1) := by
    rw [← found, List.getElem_cons_drop, List.take_append_drop]
  rw [List.set_eq_take_append_cons_drop, if_pos inside]
  conv_rhs => rw [split]
  simp only [List.filterMap_append, List.filterMap_cons, active]
  cases later.error? with
  | none => simp
  | some error =>
      rw [Option.toList_some, List.append_assoc]
      exact List.Perm.append_left _ (List.perm_append_singleton _ _).symm

theorem exited_of_set {workers : List (Worker Error)} {index : Nat} {later : Worker Error}
    (active : later ≠ .exited) (found : .exited ∈ workers.set index later) :
    .exited ∈ workers := by
  rcases List.mem_or_eq_of_mem_set found with kept | same
  · exact kept
  · exact absurd same.symm active

theorem settle_guarded (state : State Error) : settle true state = state := by
  simp [settle, outOfWork]

theorem settle_stopped (guarded : Bool) (state : State Error) (stopped : state.stopped = true) :
    (settle guarded state).stopped = true := by
  simp [settle, stopped]

theorem thrown_by_snoc (events : List (Event Error)) (event : Event Error) :
    thrownBy (events ++ [event]) = thrownBy events ++ event.thrown?.toList := by
  rw [thrownBy, List.filterMap_append]
  cases thrown : event.thrown? <;> simp [thrownBy, thrown]

theorem signalled_snoc (events : List (Event Error)) (event : Event Error) :
    signalled (events ++ [event]) = (signalled events || event.stops) := by
  simp [signalled]

theorem accounted_snoc {events : List (Event Error)} (accounted : Accounted guarded state events)
    (errors : (next.workers.filterMap Worker.error?).Perm
      (state.workers.filterMap Worker.error? ++ event.thrown?.toList))
    (exited : .exited ∈ next.workers → next.stopped = true)
    (guard : guarded = true → next.stopped = (state.stopped || event.stops)) :
    Accounted guarded next (events ++ [event]) := by
  constructor
  · rw [thrown_by_snoc]
    exact errors.trans (accounted.errors.append_right _)
  · exact exited
  · intro isGuarded
    rw [guard isGuarded, accounted.guard isGuarded, signalled_snoc]

theorem no_error_added (errors : List Error) (silent : event.thrown? = none) :
    errors.Perm (errors ++ event.thrown?.toList) := by
  rw [silent, Option.toList_none, List.append_nil]

theorem accounted_move {events : List (Event Error)} (accounted : Accounted guarded state events)
    (move : Move guarded numThreads state event next) :
    Accounted guarded next (events ++ [event]) := by
  have exited := accounted.exited
  cases move with
  | spawn room =>
      apply accounted_snoc accounted
      · rw [List.filterMap_append]
        exact List.Perm.refl _
      · intro found
        rcases List.mem_append.mp found with before | new
        · exact exited before
        · cases List.mem_singleton.mp new
      · exact fun _ => (Bool.or_false _).symm
  | take index placed =>
      apply accounted_snoc accounted (errors_set placed rfl .busy)
      · exact fun found => exited (exited_of_set (by simp) found)
      · exact fun _ => (Bool.or_false _).symm
  | finish index started thrown placed =>
      apply accounted_snoc accounted
      · have errors := errors_set placed rfl (afterHandler thrown)
        cases thrown <;> exact errors
      · intro found
        have goesOn : afterHandler thrown ≠ .exited := by cases thrown <;> simp [afterHandler]
        exact settle_stopped guarded _ (exited (exited_of_set goesOn found))
      · rintro rfl
        rw [settle_guarded]
        exact (Bool.or_false _).symm
  | signal index error placed running awaited =>
      apply accounted_snoc accounted
      · exact no_error_added _ rfl
      · intro found
        have stopped := exited found
        rw [running] at stopped
        cases stopped
      · rintro rfl
        rw [settle_guarded, running]
        exact (Bool.false_or _).symm
  | leave index placed stopped =>
      apply accounted_snoc accounted (errors_set placed rfl .exited)
      · exact fun _ => stopped
      · exact fun _ => (Bool.or_false _).symm
  | join worker full placed ended =>
      apply accounted_snoc accounted
      · exact no_error_added _ rfl
      · exact exited
      · exact fun _ => (Bool.or_false _).symm
  | collect result full joined running collected =>
      apply accounted_snoc accounted
      · exact no_error_added _ rfl
      · exact exited
      · exact fun _ => (Bool.or_false _).symm

theorem accounted_run {operations : Nat} {events : List (Event Error)}
    (ran : run (step guarded numThreads) (start operations) events = some state) :
    Accounted guarded state events := by
  induction events using List.reverseRecOn generalizing state with
  | nil =>
      cases ran
      exact ⟨List.Perm.refl _, by simp [start], fun _ => rfl⟩
  | append_singleton events event ih =>
      obtain ⟨middle, reached, stepped⟩ := run_snoc_eq_some ran
      exact accounted_move (ih reached) (move_of_step stepped)

/-! ## What `init_threads` returns -/

theorem collected_ended {workers : List (Worker Error)} {result : Except Error Unit}
    (collected : collectFutures workers = some result) :
    (result = .ok () ↔ workers.filterMap Worker.error? = []) ∧
      ∀ error, result = .error error → ∃ before after,
        workers = before ++ .failed error :: after ∧ ∀ worker ∈ before, worker = .exited := by
  induction workers with
  | nil =>
      cases collected
      exact ⟨by simp, by simp⟩
  | cons worker workers ih =>
      cases worker with
      | idle => cases collected
      | busy => cases collected
      | exited =>
          obtain ⟨whenClean, whenFailed⟩ := ih collected
          refine ⟨whenClean, ?_⟩
          intro error thrown
          obtain ⟨before, after, split, clean⟩ := whenFailed error thrown
          refine ⟨.exited :: before, after, by rw [split, List.cons_append], ?_⟩
          exact List.forall_mem_cons.mpr ⟨rfl, clean⟩
      | failed error =>
          cases collected
          refine ⟨by simp [Worker.error?], ?_⟩
          rintro other ⟨⟩
          exact ⟨[], workers, rfl, by simp⟩

theorem all_ended (sound : Sound numThreads state) {result : Except Error Unit}
    (returned : state.outcome = some result) : ∀ worker ∈ state.workers, worker.ended = true := by
  obtain ⟨full, all, _⟩ := sound.result result returned
  intro worker member
  obtain ⟨index, placed⟩ := List.mem_iff_getElem?.mp member
  obtain ⟨inside, _⟩ := List.getElem?_eq_some_iff.mp placed
  exact sound.ended index worker placed (by omega)

section Returned

variable {operations : Nat} {events : List (Event Error)} {result : Except Error Unit}

theorem returned_clean_iff
    (ran : run (step guarded numThreads) (start operations) events = some state)
    (returned : state.outcome = some result) : result = .ok () ↔ thrownBy events = [] := by
  have errors := (accounted_run ran).errors
  obtain ⟨_, _, collected⟩ := (sound_run ran).result result returned
  rw [(collected_ended collected).1]
  constructor
  · intro clean
    rw [clean] at errors
    exact List.Perm.eq_nil errors.symm
  · intro clean
    rw [clean] at errors
    exact List.Perm.eq_nil errors

/-- Without a signal a worker ends only by an exception. -/
theorem returned_why (ran : run (step true numThreads) (start operations) events = some state)
    (returned : state.outcome = some result) :
    signalled events = true ∨ (thrownBy events).length = numThreads := by
  have accounted := accounted_run ran
  have ended := all_ended (sound_run ran) returned
  by_cases received : signalled events = true
  · exact Or.inl received
  · right
    have running : state.stopped ≠ true := by
      rw [accounted.guard rfl]
      exact received
    have died : ∀ worker ∈ state.workers, worker.error?.isSome = true := by
      intro worker member
      cases worker with
      | idle => cases ended _ member
      | busy => cases ended _ member
      | exited => exact absurd (accounted.exited member) running
      | failed error => rfl
    rw [← accounted.errors.length_eq, List.length_filterMap_eq_countP,
      List.countP_eq_length.mpr died, ((sound_run ran).result result returned).1]

/-- `init_threads` ends only when all workers have. It returns normally exactly
if no handler has thrown, and otherwise throws what the first of the workers, in
the order of their creation, died of. With the guard that `main` holds it does
not end without a signal, unless every single worker has died of an exception. -/
theorem init_threads_outcome
    (ran : run (step true numThreads) (start operations) events = some state)
    (returned : state.outcome = some result) :
    state.workers.length = numThreads ∧ (∀ worker ∈ state.workers, worker.ended = true) ∧
      (result = .ok () ↔ thrownBy events = []) ∧
      (∀ error, result = .error error → ∃ before after,
        state.workers = before ++ .failed error :: after ∧ ∀ worker ∈ before, worker = .exited) ∧
      (signalled events = true ∨ (thrownBy events).length = numThreads) := by
  have sound := sound_run ran
  obtain ⟨full, _, collected⟩ := sound.result result returned
  exact ⟨full, all_ended sound returned, returned_clean_iff ran returned,
    (collected_ended collected).2, returned_why ran returned⟩

end Returned

def oneFails : List (Event Nat) :=
  [.spawn, .spawn, .take 1, .finish 1 0 (some 7), .signal 0 false, .leave 0, .join, .join, .collect]

theorem init_threads_outcome_one_fails :
    ∃ state : State Nat, run (step true 2) (start 1) oneFails = some state ∧
      state.outcome = some (.error 7) ∧ signalled oneFails = true := by
  have ran : run (step true 2) (start 1) oneFails =
      some ⟨true, false, 0, [.exited, .failed 7], 2, some (.error 7)⟩ := rfl
  have outcome := init_threads_outcome ran rfl
  obtain ⟨_, _, _, _, received | died⟩ := outcome
  · exact ⟨_, ran, rfl, received⟩
  · cases died

/-! ## Shutting down -/

def Worker.weight : Worker Error → Nat
  | .idle => 1
  | .busy => 2
  | _ => 0

def outstanding : Option (Except Error Unit) → Nat
  | none => 1
  | some _ => 0

def remaining (numThreads : Nat) (state : State Error) : Nat :=
  2 * (numThreads - state.workers.length) + (state.workers.map Worker.weight).sum +
    (numThreads - state.joined) + outstanding state.outcome

theorem weights_bound (workers : List (Worker Error)) :
    (workers.map Worker.weight).sum ≤ 2 * workers.length := by
  induction workers with
  | nil => exact Nat.le_refl 0
  | cons worker workers ih =>
      have light : worker.weight ≤ 2 := by cases worker <;> simp [Worker.weight]
      simp only [List.map_cons, List.sum_cons, List.length_cons]
      omega

theorem remaining_bound (sound : Sound numThreads state) :
    remaining numThreads state ≤ 3 * numThreads + 1 := by
  have weights := weights_bound state.workers
  have size := sound.size
  have last : outstanding state.outcome ≤ 1 := by
    cases state.outcome <;> simp [outstanding]
  unfold remaining
  omega

def Stopping (numThreads : Nat) (state : State Error) : Prop :=
  Sound numThreads state ∧ state.stopped = true

theorem stopping_descends (guarded : Bool) (numThreads : Nat) :
    Descends (step guarded numThreads) (@Stopping Error numThreads)
      (Fewer (remaining numThreads)) := by
  rintro state event next ⟨sound, stopped⟩ stepped
  have move := move_of_step stepped
  refine ⟨⟨sound_move sound move, ?_⟩, ?_⟩
  · cases move with
    | finish index started thrown placed => exact settle_stopped guarded _ stopped
    | signal index error placed running =>
        rw [stopped] at running
        cases running
    | _ => exact stopped
  · cases move with
    | spawn room =>
        simp only [Fewer, remaining, List.length_append, List.length_singleton, List.map_append,
          List.sum_append, List.map_singleton, List.sum_singleton, Worker.weight]
        omega
    | take index placed running =>
        rw [stopped] at running
        cases running
    | finish index started thrown placed =>
        have weights := total_set Worker.weight placed (afterHandler thrown)
        have light : (afterHandler thrown).weight ≤ 1 := by
          cases thrown <;> simp [afterHandler, Worker.weight]
        have heavy : (Worker.busy : Worker Error).weight = 2 := rfl
        simp only [Fewer, remaining, settle, List.length_set]
        omega
    | signal index error placed running =>
        rw [stopped] at running
        cases running
    | leave index placed =>
        have weights := total_set Worker.weight placed .exited
        have left : (Worker.exited : Worker Error).weight = 0 := rfl
        have heavy : (Worker.idle : Worker Error).weight = 1 := rfl
        simp only [Fewer, remaining, List.length_set]
        omega
    | join worker full placed ended =>
        obtain ⟨inside, _⟩ := List.getElem?_eq_some_iff.mp placed
        simp only [Fewer, remaining]
        omega
    | collect result full joined running collected => simp [Fewer, remaining, running, outstanding]

theorem collected_of_ended {workers : List (Worker Error)}
    (ended : ∀ worker ∈ workers, worker.ended = true) :
    ∃ result, collectFutures workers = some result := by
  induction workers with
  | nil => exact ⟨.ok (), rfl⟩
  | cons worker workers ih =>
      obtain ⟨here, later⟩ := List.forall_mem_cons.mp ended
      cases worker with
      | idle => cases here
      | busy => cases here
      | exited => exact ih later
      | failed error => exact ⟨.error error, rfl⟩

theorem stopping_never_stuck (guarded : Bool) (numThreads : Nat) :
    NeverStuck (@step Error guarded numThreads) (Stopping numThreads)
      (fun state => state.outcome.isSome = true) := by
  rintro state ⟨sound, stopped⟩ unfinished
  have open_ : state.outcome = none := by simpa using unfinished
  rcases Nat.lt_or_eq_of_le sound.size with room | full
  · exact ⟨.spawn, _, step_of_move (.spawn room)⟩
  rcases Nat.lt_or_eq_of_le sound.inside with more | all
  · have placed := List.getElem?_eq_getElem more
    -- the worker that the main thread waits for
    cases waited : state.workers[state.joined] with
    | idle =>
        rw [waited] at placed
        exact ⟨.leave state.joined, _, step_of_move (.leave state.joined placed stopped)⟩
    | busy =>
        rw [waited] at placed
        exact ⟨_, _, step_of_move (.finish state.joined 0 none placed)⟩
    | exited =>
        rw [waited] at placed
        exact ⟨.join, _, step_of_move (.join .exited full placed rfl)⟩
    | failed error =>
        rw [waited] at placed
        exact ⟨.join, _, step_of_move (.join (.failed error) full placed rfl)⟩
  · have ended : ∀ worker ∈ state.workers, worker.ended = true := by
      intro worker member
      obtain ⟨index, placed⟩ := List.mem_iff_getElem?.mp member
      obtain ⟨inside, _⟩ := List.getElem?_eq_some_iff.mp placed
      exact sound.ended index worker placed (by omega)
    obtain ⟨result, collected⟩ := collected_of_ended ended
    exact ⟨.collect, _, step_of_move (.collect result full (all.trans full) open_ collected)⟩

/-- Once the service has been stopped, whatever the threads do, `init_threads`
is over after a bounded number of steps: no run from there is longer, and one
that has not got there goes on. -/
theorem shutdown_completes {operations : Nat} {events : List (Event Error)}
    (ran : run (step guarded numThreads) (start operations) events = some state)
    (stopped : state.stopped = true) :
    (∀ later last, run (step guarded numThreads) state later = some last →
      later.length ≤ 3 * numThreads + 1 ∧
        (last.outcome.isSome = true ∨
          ∃ event next, step guarded numThreads last event = some next)) ∧
      ∃ later last, run (step guarded numThreads) state later = some last ∧
        last.outcome.isSome = true := by
  have sound := sound_run ran
  have descends := @stopping_descends Error guarded numThreads
  have neverStuck := @stopping_never_stuck Error guarded numThreads
  constructor
  · intro later last reached
    obtain ⟨stopping, bound⟩ := run_descends descends ⟨sound, stopped⟩ reached
    have limit := remaining_bound sound
    refine ⟨by omega, ?_⟩
    by_cases finished : last.outcome.isSome = true
    · exact Or.inl finished
    · exact Or.inr (neverStuck last stopping finished)
  · exact run_completes descends (fewer_well_founded _) neverStuck ⟨sound, stopped⟩

theorem shutdown_completes_after_signal :
    ∃ later last, run (step true 1) (⟨true, false, 1, [.idle], 0, none⟩ : State Nat) later =
      some last ∧ last.outcome.isSome = true := by
  have ran : run (step true 1) (start 1) [.spawn, .signal 0 false] =
      some (⟨true, false, 1, [.idle], 0, none⟩ : State Nat) := rfl
  exact (shutdown_completes ran rfl).2

end Joining

end RestfulWebserver.Startup.ThreadPool
