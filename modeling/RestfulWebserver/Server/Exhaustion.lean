import RestfulWebserver.Server.Process

/-!
# Connections that use up the threads

A handler that throws on the first packet of a connection takes the worker with
it, and nothing starts another one. As many such connections as there are
threads end the process, with no signal and on no matter which session.
-/

namespace RestfulWebserver.Server.Process

open RestfulWebserver.Library RestfulWebserver.Startup

/-- A packet on a new connection, and the read of it, that throws. -/
structure FatalPacket {Error : Type} (factory : SessionFactory Error) (error : Error) where
  arrival : factory.Event
  reading : factory.Event
  arrived : factory.State
  dead : Nat → factory.State
  comes : factory.isNetwork arrival = true
  handled : factory.isNetwork reading = false
  arrives : ∀ index, factory.step index factory.start arrival = some arrived
  reads : ∀ index, factory.step index arrived reading = some (dead index)
  throws : ∀ index, factory.thrownIn index arrived reading = some error

section Exhaustion

variable {Error : Type} {factory : SessionFactory Error} {error : Error}
  (packet : FatalPacket factory error) (numThreads : Nat)

/-- The worker of the same number takes up the connection and the packet on it. -/
def connection (index : Nat) : List (Event factory) :=
  [.thread (.take index), .handle index 2 (.accept index false),
    .network (.session index packet.arrival), .thread (.take index),
    .handle index 0 (.session index packet.reading)]

def exhausted (count : Nat) : State factory where
  server := ⟨(List.range count).map (fun index => .started (packet.dead index)) ++ [.pending],
    [count]⟩
  pool := ⟨false, true, 1, List.replicate count (.failed error) ++
    List.replicate (numThreads - count) .idle, 0, none⟩

theorem get_behind {Item : Type} {front : List Item} {index : Nat} (size : front.length = index)
    (item : Item) (back : List Item) : (front ++ item :: back)[index]? = some item := by
  subst size
  rw [List.getElem?_append_right (Nat.le_refl _), Nat.sub_self, List.getElem?_cons_zero]

theorem set_behind {Item : Type} {front : List Item} {index : Nat} (size : front.length = index)
    (old new : Item) (back : List Item) :
    (front ++ old :: back).set index new = front ++ new :: back := by
  subst size
  rw [List.set_append_right _ _ (Nat.le_refl _), Nat.sub_self, List.set_cons_zero]

section Connection

variable {numThreads} {index : Nat} {sessions : List (Slot factory.State)}
  {workers others : List (ThreadPool.Worker Error)}

/-- A worker takes up a completed operation. -/
theorem take_step (free : workers.length = index) (server : Server.State factory.State)
    (operations : Nat) :
    step factory numThreads
        ⟨server, ⟨false, true, operations + 1, workers ++ .idle :: others, 0, none⟩⟩
        (.thread (.take index)) =
      some ⟨server, ⟨false, true, operations, workers ++ .busy :: others, 0, none⟩⟩ := by
  simp [step, isThreadStep, ThreadPool.step, get_behind free, set_behind free]

theorem finish_step (free : workers.length = index) (operations started : Nat)
    (thrown : Option Error) :
    ThreadPool.step true numThreads
        ⟨false, true, operations, workers ++ .busy :: others, 0, none⟩
        (.finish index started thrown) =
      some ⟨false, true, operations + started,
        workers ++ ThreadPool.afterHandler thrown :: others, 0, none⟩ := by
  simp [ThreadPool.step, get_behind free, set_behind free, ThreadPool.settle, ThreadPool.outOfWork]

theorem accept_handled (size : sessions.length = index) :
    Server.step factory ⟨sessions ++ [.pending], [index]⟩ (.accept index false) =
      some ⟨sessions ++ [.started factory.start, .pending], [index + 1]⟩ := by
  simp [Server.step, handleAccept, startAccept, set_behind size, size]

theorem session_handled (size : sessions.length = index) {before after : factory.State}
    {event : factory.Event} (stepped : factory.step index before event = some after)
    (accepts : List Nat) :
    Server.step factory ⟨sessions ++ [.started before, .pending], accepts⟩ (.session index event) =
      some ⟨sessions ++ [.started after, .pending], accepts⟩ := by
  simp [Server.step, get_behind size, set_behind size, stepped]

theorem connection_runs (size : sessions.length = index) (free : workers.length = index) :
    run (step factory numThreads)
        ⟨⟨sessions ++ [.pending], [index]⟩,
          ⟨false, true, 1, workers ++ .idle :: others, 0, none⟩⟩ (connection packet index) =
      some ⟨⟨sessions ++ [.started (packet.dead index), .pending], [index + 1]⟩,
        ⟨false, true, 1, workers ++ .failed error :: others, 0, none⟩⟩ := by
  have accepted : step factory numThreads
      ⟨⟨sessions ++ [.pending], [index]⟩, ⟨false, true, 0, workers ++ .busy :: others, 0, none⟩⟩
      (.handle index 2 (.accept index false)) =
        some ⟨⟨sessions ++ [.started factory.start, .pending], [index + 1]⟩,
          ⟨false, true, 2, workers ++ .idle :: others, 0, none⟩⟩ := by
    simp [step, Event.isNetwork, accept_handled size, thrownIn, finish_step free,
      ThreadPool.afterHandler]
  have arrived : step factory numThreads
      ⟨⟨sessions ++ [.started factory.start, .pending], [index + 1]⟩,
        ⟨false, true, 2, workers ++ .idle :: others, 0, none⟩⟩
      (.network (.session index packet.arrival)) =
        some ⟨⟨sessions ++ [.started packet.arrived, .pending], [index + 1]⟩,
          ⟨false, true, 2, workers ++ .idle :: others, 0, none⟩⟩ := by
    simp [step, Event.isNetwork, packet.comes, session_handled size (packet.arrives index)]
  have thrown : step factory numThreads
      ⟨⟨sessions ++ [.started packet.arrived, .pending], [index + 1]⟩,
        ⟨false, true, 1, workers ++ .busy :: others, 0, none⟩⟩
      (.handle index 0 (.session index packet.reading)) =
        some ⟨⟨sessions ++ [.started (packet.dead index), .pending], [index + 1]⟩,
          ⟨false, true, 1, workers ++ .failed error :: others, 0, none⟩⟩ := by
    simp [step, Event.isNetwork, packet.handled, session_handled size (packet.reads index),
      thrownIn, get_behind size, packet.throws, finish_step free, ThreadPool.afterHandler]
  rw [connection, run_cons_of_step _ (take_step free _ 0), run_cons_of_step _ accepted,
    run_cons_of_step _ arrived, run_cons_of_step _ (take_step free _ 1),
    run_cons_of_step _ thrown, run_nil]

end Connection

theorem connections_run {count : Nat} (room : count ≤ numThreads) :
    run (step factory numThreads) (exhausted packet numThreads 0)
        ((List.range count).flatMap (connection packet)) =
      some (exhausted packet numThreads count) := by
  induction count with
  | zero => rfl
  | succ count ih =>
      obtain ⟨spare, more⟩ : ∃ spare, numThreads - count = spare + 1 :=
        ⟨numThreads - count - 1, by omega⟩
      have fewer : numThreads - (count + 1) = spare := by omega
      rw [List.range_succ, List.flatMap_append, run_append, ih (by omega), Option.bind_some,
        List.flatMap_singleton, exhausted, more, List.replicate_succ,
        connection_runs packet (by simp) (by simp), exhausted, fewer]
      simp [List.range_succ, List.replicate_succ']

theorem spawns_run {present more : Nat} (room : present + more ≤ numThreads) :
    run (step factory numThreads)
        ⟨constructed, ⟨false, true, 1, List.replicate present .idle, 0, none⟩⟩
        (List.replicate more (.thread .spawn)) =
      some ⟨constructed, ⟨false, true, 1, List.replicate (present + more) .idle, 0, none⟩⟩ := by
  induction more generalizing present with
  | zero => rfl
  | succ more ih =>
      have onward := @ih (present + 1) (by omega)
      rw [Nat.add_right_comm] at onward
      have spawned : step factory numThreads
          ⟨constructed, ⟨false, true, 1, List.replicate present .idle, 0, none⟩⟩
          (.thread .spawn) =
            some ⟨constructed, ⟨false, true, 1, List.replicate (present + 1) .idle, 0, none⟩⟩ := by
        have free : present < numThreads := by omega
        simp [step, isThreadStep, ThreadPool.step, free, List.replicate_succ']
      rw [List.replicate_succ, run_cons_of_step _ spawned, onward]
      rfl

theorem joins_run {server : Server.State factory.State} {joined more : Nat}
    (room : joined + more ≤ numThreads) :
    run (step factory numThreads)
        ⟨server, ⟨false, true, 1, List.replicate numThreads (.failed error), joined, none⟩⟩
        (List.replicate more (.thread .join)) =
      some ⟨server, ⟨false, true, 1, List.replicate numThreads (.failed error), joined + more,
        none⟩⟩ := by
  induction more generalizing joined with
  | zero => rfl
  | succ more ih =>
      have onward := @ih (joined + 1) (by omega)
      rw [Nat.add_right_comm] at onward
      have stepped : step factory numThreads
          ⟨server, ⟨false, true, 1, List.replicate numThreads (.failed error), joined, none⟩⟩
          (.thread .join) =
            some ⟨server, ⟨false, true, 1, List.replicate numThreads (.failed error), joined + 1,
              none⟩⟩ := by
        have inside : joined < numThreads := by omega
        simp [step, isThreadStep, ThreadPool.step, inside, ThreadPool.Worker.ended]
      rw [List.replicate_succ, run_cons_of_step _ stepped, onward]
      rfl

theorem collect_run {server : Server.State factory.State} (some_threads : 0 < numThreads) :
    step factory numThreads
        ⟨server, ⟨false, true, 1, List.replicate numThreads (.failed error), numThreads, none⟩⟩
        (.thread .collect) =
      some ⟨server, ⟨false, true, 1, List.replicate numThreads (.failed error), numThreads,
        some (.error error)⟩⟩ := by
  obtain ⟨others, rfl⟩ := Nat.exists_eq_add_of_lt some_threads
  simp [step, isThreadStep, ThreadPool.step, List.replicate_succ, ThreadPool.collectFutures]

def exhaustion : List (Event factory) :=
  List.replicate numThreads (.thread .spawn) ++
    (List.range numThreads).flatMap (connection packet) ++
    List.replicate numThreads (.thread .join) ++ [.thread .collect]

theorem exhaustion_runs (some_threads : 0 < numThreads) :
    ∃ server, run (step factory numThreads) (start factory) (exhaustion packet numThreads) =
      some ⟨server, ⟨false, true, 1, List.replicate numThreads (.failed error), numThreads,
        some (.error error)⟩⟩ := by
  have spawned := @spawns_run _ factory numThreads 0 numThreads (by omega)
  have connected := connections_run packet numThreads (Nat.le_refl numThreads)
  have same : exhausted packet numThreads 0 = ⟨constructed,
      ⟨false, true, 1, List.replicate (0 + numThreads) .idle, 0, none⟩⟩ := by
    simp [exhausted, constructed, startAccept]
  have all : exhausted packet numThreads numThreads =
      ⟨(exhausted packet numThreads numThreads).server,
        ⟨false, true, 1, List.replicate numThreads (.failed error), 0, none⟩⟩ := by
    simp [exhausted]
  rw [same, all] at connected
  have joined := @joins_run _ factory error numThreads
    (exhausted packet numThreads numThreads).server 0 numThreads (by omega)
  rw [Nat.zero_add] at joined
  refine ⟨(exhausted packet numThreads numThreads).server, ?_⟩
  rw [exhaustion, List.append_assoc, List.append_assoc, run_append]
  have begun : start factory = ⟨constructed, ⟨false, true, 1, List.replicate 0 .idle, 0, none⟩⟩ :=
    rfl
  rw [begun, spawned, Option.bind_some, run_append, connected, Option.bind_some, run_append, joined,
    Option.bind_some, run_cons_of_step _ (collect_run numThreads some_threads), run_nil]

theorem exhaustion_not_signalled : signalled (exhaustion packet numThreads) = false := by
  simp [signalled, exhaustion, connection, Event.stops, ThreadPool.Event.stops]

def isPacket : Event factory → Bool
  | .network _ => true
  | _ => false

theorem exhaustion_packets : (exhaustion packet numThreads).countP isPacket = numThreads := by
  have all : ∀ count, ((List.range count).flatMap (connection packet)).countP isPacket = count := by
    intro count
    induction count with
    | zero => rfl
    | succ count ih =>
        rw [List.range_succ, List.flatMap_append, List.countP_append, ih, List.flatMap_singleton]
        rfl
  simp [exhaustion, all, isPacket, List.countP_replicate]

theorem exhaustion_only {event : Event factory} (member : event ∈ exhaustion packet numThreads)
    (network : isPacket event = true) : ∃ index, event = .network (.session index packet.arrival) := by
  simp only [exhaustion, List.mem_append, List.mem_replicate, List.mem_flatMap,
    List.mem_singleton] at member
  rcases member with ((⟨_, rfl⟩ | ⟨index, _, inside⟩) | ⟨_, rfl⟩) | rfl
  · cases network
  · simp only [connection, List.mem_cons, List.not_mem_nil, or_false] at inside
    rcases inside with rfl | rfl | rfl | rfl | rfl
    · cases network
    · cases network
    · exact ⟨index, rfl⟩
    · cases network
    · cases network
  · cases network
  · cases network

end Exhaustion

end RestfulWebserver.Server.Process
