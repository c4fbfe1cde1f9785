import RestfulWebserver.Server.Sessions
import RestfulWebserver.Startup.ThreadPool

/-!
# The server on its worker threads

Every call of `handle_accept`, `handle_read` and `handle_write` is made by some
worker, which an exception out of the call takes with it. Bytes arrive and are
sent without one. A call is one step here: what two workers do that run handlers
of one session at a time, which no strand prevents, is left out, and so is what a
handler does to a session that has been deleted.
-/

namespace RestfulWebserver.Server

open RestfulWebserver.Library RestfulWebserver.Startup

section Handlers

variable {Error : Type} {factory : SessionFactory Error}

def thrownIn (state : State factory.State) : Event factory → Option Error
  | .accept _ _ => none
  | .session index event =>
      match state.sessions[index]? with
      | some (.started before) => factory.thrownIn index before event
      | _ => none

def Event.isNetwork : Event factory → Bool
  | .accept _ _ => false
  | .session _ event => factory.isNetwork event

end Handlers

namespace Process

section Steps

variable {Error : Type} (factory : SessionFactory Error)

structure State where
  server : Server.State factory.State
  pool : ThreadPool.State Error

/-- When `init_threads` begins, one accept is outstanding. -/
def start : State factory := ⟨constructed, ThreadPool.start 1⟩

inductive Event where
  | network (event : Server.Event factory)
  /-- A worker runs a handler to its end; `started` operations are left. -/
  | handle (worker started : Nat) (event : Server.Event factory)
  | thread (event : ThreadPool.Event Error)

/-- A step of the threads that does not end a handler. -/
def isThreadStep : ThreadPool.Event Error → Bool
  | .finish _ _ _ => false
  | _ => true

def step (numThreads : Nat) (state : State factory) : Event factory → Option (State factory)
  | .network event =>
      if event.isNetwork then
        (Server.step factory state.server event).map fun server => { state with server }
      else none
  | .handle worker started event =>
      if event.isNetwork then none
      else do
        let server ← Server.step factory state.server event
        let pool ← ThreadPool.step true numThreads state.pool
          (.finish worker started (thrownIn state.server event))
        some ⟨server, pool⟩
  | .thread event =>
      if isThreadStep event then
        (ThreadPool.step true numThreads state.pool event).map fun pool => { state with pool }
      else none

variable {factory}

/-- The events of the server, and those of the threads that are no handlers. -/
def serverEvent : Event factory → Option (Server.Event factory)
  | .network event => some event
  | .handle _ _ event => some event
  | .thread _ => none

def Event.stops : Event factory → Bool
  | .thread event => event.stops
  | _ => false

def signalled (events : List (Event factory)) : Bool := events.any Event.stops

end Steps

end Process

/-! ## Counting what escapes -/

section Counting

variable {Error : Type} {factory : SessionFactory Error}

/-- How often an exception has left a handler of the session. -/
def escapedFrom (factory : SessionFactory Error) : Slot factory.State → Nat
  | .started state => factory.escaped state
  | _ => 0

def escapes (state : State factory.State) : Nat := (state.sessions.map (escapedFrom factory)).sum

theorem step_escapes {state next : State factory.State} {errors : List Bool}
    {event : Event factory} (accepting : Accepting state errors)
    (stepped : step factory state event = some next) :
    escapes next = escapes state + (thrownIn state event).toList.length := by
  cases move_of_step accepting stepped with
  | accept error =>
      have placed := newest_pending accepting
      cases error with
      | true =>
          have same := total_set (escapedFrom factory) placed .discarded
          simp only [escapes, handleAccept, startAccept, thrownIn, List.map_append, List.sum_append,
            if_true, List.map_singleton, List.sum_singleton, escapedFrom, Option.toList_none,
            List.length_nil] at same ⊢
          omega
      | false =>
          have same := total_set (escapedFrom factory) placed (.started factory.start)
          have fresh := factory.escaped_start
          simp only [escapes, handleAccept, startAccept, thrownIn, List.map_append, List.sum_append,
            Bool.false_eq_true, if_false, List.map_singleton, List.sum_singleton, escapedFrom,
            Option.toList_none, List.length_nil] at same ⊢
          omega
  | session index event before after placed moved =>
      have same := total_set (escapedFrom factory) placed (.started after)
      have added := factory.escaped_step moved
      simp only [escapes, thrownIn, placed, escapedFrom] at same ⊢
      omega

end Counting

namespace Process

section Together

variable {Error : Type} {factory : SessionFactory Error} {numThreads : Nat}
  {state next : State factory} {event : Event factory}

inductive Move (factory : SessionFactory Error) (numThreads : Nat) (state : State factory) :
    Event factory → State factory → Prop
  | network (event : Server.Event factory) (server : Server.State factory.State) (outside : event.isNetwork = true)
      (stepped : Server.step factory state.server event = some server) :
      Move factory numThreads state (.network event) { state with server }
  | handle (worker started : Nat) (event : Server.Event factory) (server : Server.State factory.State)
      (pool : ThreadPool.State Error)
      (stepped : Server.step factory state.server event = some server)
      (ended : ThreadPool.step true numThreads state.pool
        (.finish worker started (thrownIn state.server event)) = some pool) :
      Move factory numThreads state (.handle worker started event) ⟨server, pool⟩
  | thread (event : ThreadPool.Event Error) (pool : ThreadPool.State Error)
      (isStep : isThreadStep event = true)
      (stepped : ThreadPool.step true numThreads state.pool event = some pool) :
      Move factory numThreads state (.thread event) { state with pool }

theorem move_of_step (stepped : step factory numThreads state event = some next) :
    Move factory numThreads state event next := by
  cases event with
  | network event =>
      simp only [step] at stepped
      split_ifs at stepped with outside
      obtain ⟨server, moved, rfl⟩ := Option.map_eq_some_iff.mp stepped
      exact .network event server outside moved
  | handle worker started event =>
      simp only [step] at stepped
      split_ifs at stepped
      obtain ⟨server, moved, rest⟩ := Option.bind_eq_some_iff.mp stepped
      obtain ⟨pool, ended, made⟩ := Option.bind_eq_some_iff.mp rest
      cases made
      exact .handle worker started event server pool moved ended
  | thread event =>
      simp only [step] at stepped
      split_ifs at stepped with isStep
      obtain ⟨pool, moved, rfl⟩ := Option.map_eq_some_iff.mp stepped
      exact .thread event pool isStep moved

theorem network_throws_nothing {state : Server.State factory.State} {event : Server.Event factory}
    (outside : event.isNetwork = true) : thrownIn state event = none := by
  cases event with
  | accept newSession error => cases outside
  | session index event =>
      simp only [thrownIn]
      split
      · exact factory.network_silent outside
      · rfl

theorem signalled_snoc (events : List (Event factory)) (event : Event factory) :
    signalled (events ++ [event]) = (signalled events || event.stops) := by
  simp [signalled]

/-- A run of the process is a run of the server and a run of the threads, in
which as many handlers throw as exceptions escape from the sessions. -/
structure Together (factory : SessionFactory Error) (numThreads : Nat)
    (events : List (Event factory)) (state : State factory)
    (poolEvents : List (ThreadPool.Event Error)) : Prop where
  server : run (Server.step factory) constructed (events.filterMap serverEvent) =
    some state.server
  pool : run (ThreadPool.step true numThreads) (ThreadPool.start 1) poolEvents = some state.pool
  thrown : (ThreadPool.thrownBy poolEvents).length = escapes state.server
  stops : ThreadPool.signalled poolEvents = signalled events

theorem together_move {events : List (Event factory)} {poolEvents : List (ThreadPool.Event Error)}
    (together : Together factory numThreads events state poolEvents)
    (move : Move factory numThreads state event next) :
    ∃ later, Together factory numThreads (events ++ [event]) next later := by
  obtain ⟨server, pool, thrown, stops⟩ := together
  have accepting := accepting_run server
  cases move with
  | network event after outside stepped =>
      refine ⟨poolEvents, ?_, pool, ?_, ?_⟩
      · rw [List.filterMap_append]
        exact run_snoc_of_step server stepped
      · rw [step_escapes accepting stepped, network_throws_nothing outside, ← thrown]
        rfl
      · rw [stops, signalled_snoc]
        exact (Bool.or_false _).symm
  | handle worker started event after pooled stepped ended =>
      refine ⟨poolEvents ++ [_], ?_, run_snoc_of_step pool ended, ?_, ?_⟩
      · rw [List.filterMap_append]
        exact run_snoc_of_step server stepped
      · rw [step_escapes accepting stepped, ← thrown, ThreadPool.thrown_by_snoc, List.length_append]
        rfl
      · rw [ThreadPool.signalled_snoc, stops, signalled_snoc]
        rfl
  | thread event pooled isStep stepped =>
      have noServer : [(Event.thread event : Event factory)].filterMap serverEvent = [] := rfl
      have silent : event.thrown? = none := by
        cases event with
        | finish index started thrown => cases isStep
        | _ => rfl
      refine ⟨poolEvents ++ [event], ?_, run_snoc_of_step pool stepped, ?_, ?_⟩
      · rw [List.filterMap_append, noServer, List.append_nil]
        exact server
      · rw [ThreadPool.thrown_by_snoc, silent, Option.toList_none, List.append_nil, thrown]
      · rw [ThreadPool.signalled_snoc, stops, signalled_snoc]
        rfl

theorem together_run {events : List (Event factory)}
    (ran : run (step factory numThreads) (start factory) events = some state) :
    ∃ poolEvents, Together factory numThreads events state poolEvents := by
  induction events using List.reverseRecOn generalizing state with
  | nil =>
      cases ran
      exact ⟨[], rfl, rfl, rfl, rfl⟩
  | append_singleton events event ih =>
      obtain ⟨middle, reached, stepped⟩ := run_snoc_eq_some ran
      obtain ⟨poolEvents, together⟩ := ih reached
      exact together_move together (move_of_step stepped)

/-! ## What becomes of the process -/

theorem escapes_zero_iff (server : Server.State factory.State) :
    escapes server = 0 ↔ ∀ (index : Nat) (session : factory.State), server.sessions[index]? =
      some (.started session) → factory.escaped session = 0 := by
  rw [escapes, List.sum_eq_zero_iff_forall_eq_nat]
  constructor
  · intro none index session placed
    exact none _ (List.mem_map.mpr ⟨_, List.mem_of_getElem? placed, rfl⟩)
  · intro none count member
    obtain ⟨slot, stored, rfl⟩ := List.mem_map.mp member
    cases slot with
    | started session =>
        obtain ⟨index, placed⟩ := List.mem_iff_getElem?.mp stored
        exact none index session placed
    | _ => rfl

theorem errors_lost {events : List (Event factory)}
    (ran : run (step factory numThreads) (start factory) events = some state) :
    (state.pool.workers.filterMap ThreadPool.Worker.error?).length = escapes state.server := by
  obtain ⟨poolEvents, together⟩ := together_run ran
  rw [(ThreadPool.accounted_run together.pool).errors.length_eq, together.thrown]

/-- Every exception that leaves `handle_read`, on whatever session, costs one
worker thread for good; and until a signal arrives, nothing else does. -/
theorem workers_lost (factory : SessionFactory Error) (numThreads : Nat)
    {events : List (Event factory)} {state : State factory}
    (ran : run (step factory numThreads) (start factory) events = some state) :
    (state.pool.workers.filterMap ThreadPool.Worker.error?).length = escapes state.server ∧
      (signalled events = false → state.pool.workers.length =
        state.pool.workers.countP (fun worker => !worker.ended) + escapes state.server) := by
  obtain ⟨poolEvents, together⟩ := together_run ran
  have accounted := ThreadPool.accounted_run together.pool
  have lost := errors_lost ran
  refine ⟨lost, ?_⟩
  intro quiet
  have running : state.pool.stopped = false := by
    rw [accounted.guard rfl, together.stops, quiet]
  have died : state.pool.workers.countP (fun worker => worker.error?.isSome) =
      state.pool.workers.countP ThreadPool.Worker.ended := by
    apply List.countP_congr
    intro worker member
    cases worker with
    | exited =>
        have stopped := accounted.exited member
        rw [running] at stopped
        cases stopped
    | _ => rfl
  have split := @List.length_eq_countP_add_countP _ ThreadPool.Worker.ended state.pool.workers
  simp only [Bool.not_eq_true, Bool.decide_eq_false] at split
  rw [← lost, List.length_filterMap_eq_countP, died, Nat.add_comm]
  exact split

section Returned

variable {events : List (Event factory)} {poolEvents : List (ThreadPool.Event Error)}
  {result : Except Error Unit}

theorem returned_clean_iff (together : Together factory numThreads events state poolEvents)
    (returned : state.pool.outcome = some result) :
    result = .ok () ↔ escapes state.server = 0 := by
  rw [ThreadPool.returned_clean_iff together.pool returned, ← List.length_eq_zero_iff,
    together.thrown]

theorem returned_why (together : Together factory numThreads events state poolEvents)
    (returned : state.pool.outcome = some result) :
    signalled events = true ∨ escapes state.server = numThreads := by
  rw [← together.stops, ← together.thrown]
  exact ThreadPool.returned_why together.pool returned

end Returned

/-- The process goes on until all threads have ended. It comes to its end without
an exception exactly if none has left `handle_read` on any session; and it ends
only after a signal, or when as many exceptions have as there are threads. -/
theorem process_outcome (factory : SessionFactory Error) (numThreads : Nat)
    {events : List (Event factory)} {state : State factory} {result : Except Error Unit}
    (ran : run (step factory numThreads) (start factory) events = some state)
    (returned : state.pool.outcome = some result) :
    state.pool.workers.length = numThreads ∧
      (∀ worker ∈ state.pool.workers, worker.ended = true) ∧
      (result = .ok () ↔ ∀ (index : Nat) (session : factory.State),
        state.server.sessions[index]? = some (.started session) → factory.escaped session = 0) ∧
      (signalled events = true ∨ escapes state.server = numThreads) := by
  obtain ⟨poolEvents, together⟩ := together_run ran
  have sound := ThreadPool.sound_run together.pool
  refine ⟨(sound.result result returned).1, ThreadPool.all_ended sound returned, ?_, ?_⟩
  · exact (returned_clean_iff together returned).trans (escapes_zero_iff state.server)
  · exact returned_why together returned

/-- Without an exception that escapes, the process keeps all its workers and
comes to its end by a signal only, cleanly. -/
theorem none_escaped {events : List (Event factory)}
    (ran : run (step factory numThreads) (start factory) events = some state)
    (silent : escapes state.server = 0) (some_threads : 0 < numThreads) :
    (∀ worker ∈ state.pool.workers, worker.error? = none) ∧
      ∀ result, state.pool.outcome = some result → result = .ok () ∧ signalled events = true := by
  obtain ⟨poolEvents, together⟩ := together_run ran
  have lost := errors_lost ran
  constructor
  · rw [silent, List.length_eq_zero_iff, List.filterMap_eq_nil_iff] at lost
    exact lost
  · intro result returned
    refine ⟨(returned_clean_iff together returned).mpr silent, ?_⟩
    rcases returned_why together returned with received | all
    · exact received
    · omega

end Together

/-- The only worker accepts a connection and reads a packet on which `std::stoul`
throws. -/
def loseOne : List (Event bareService.factory) :=
  [.thread .spawn, .thread (.take 0), .handle 0 2 (.accept 0 false),
    .network (.session 0 (.arrive 0 Session.wordLengthGet)), .thread (.take 0),
    .handle 0 0 (.session 0 (.readDone 0)), .thread .join, .thread .collect]

theorem lose_one_runs : ∃ state,
    run (step bareService.factory 1) (start bareService.factory) loseOne = some state ∧
      escapes state.server = 1 ∧ state.pool.outcome.isSome = true := by
  have counted : (run (step bareService.factory 1) (start bareService.factory) loseOne).map
      (fun state => (escapes state.server, state.pool.outcome.isSome)) = some (1, true) := by
    decide +kernel
  obtain ⟨state, ran, both⟩ := Option.map_eq_some_iff.mp counted
  exact ⟨state, ran, (Prod.mk.inj both).1, (Prod.mk.inj both).2⟩

theorem workers_lost_one : ∃ state,
    run (step bareService.factory 1) (start bareService.factory) loseOne = some state ∧
      (state.pool.workers.filterMap ThreadPool.Worker.error?).length = 1 := by
  obtain ⟨state, ran, one, _⟩ := lose_one_runs
  refine ⟨state, ran, ?_⟩
  rw [← one]
  exact (workers_lost bareService.factory 1 ran).1

theorem process_outcome_failed : ∃ state result,
    run (step bareService.factory 1) (start bareService.factory) loseOne = some state ∧
      state.pool.outcome = some result ∧ state.pool.workers.length = 1 ∧
      (signalled loseOne = true ∨ escapes state.server = 1) ∧ signalled loseOne = false := by
  obtain ⟨state, ran, _, returns⟩ := lose_one_runs
  obtain ⟨result, returned⟩ := Option.isSome_iff_exists.mp returns
  obtain ⟨all, _, _, ended⟩ := process_outcome bareService.factory 1 ran returned
  exact ⟨state, result, ran, returned, all, ended, rfl⟩

end Process

end RestfulWebserver.Server
