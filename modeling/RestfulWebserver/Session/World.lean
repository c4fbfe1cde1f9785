import RestfulWebserver.Session.Lockstep

/-!
# Handlers that share a world

A handler finds what the handlers before it have left, on a disk for example. The
session with such handlers runs as one whose answers are given by their number: the
handler with this number finds what the responses before it have led to.
-/

namespace RestfulWebserver.Session

open RestfulWebserver.Library RestfulWebserver.Http

/-- The routes of the server, and what its handlers answer and leave. -/
structure WorldServer (World : Type) where
  routes : RoutingMap
  handle : Bytes → RoutingPayload → HttpRequest → World → HttpResponse × World

namespace WorldServer

variable {World : Type}

def dispatch (server : WorldServer World) (request : HttpRequest) (world : World) :
    HttpResponse × World :=
  match bestPrefix server.routes request.path with
  | none => (notFoundResponse, world)
  | some best =>
      match server.routes.find? best with
      -- unreachable: `best` is one of the keys of the map
      | none => (notFoundResponse, world)
      | some payload => server.handle best payload request world

def answer (server : WorldServer World) (state : State) (request : HttpRequest) (world : World) :
    (State × Bool) × World :=
  if malformed request then
    ((respond state none badRequestResponse.toString true, true), world)
  else if request.version ≠ httpVersion then
    ((respond state none badRequestResponse.toString true, true), world)
  else
    let close := closeConnection request
    let dispatched := server.dispatch request world
    let response := setConnection dispatched.1 close
    ((respond state (some request) response.toString close, close), dispatched.2)

theorem answer_request_buffer (server : WorldServer World) (state : State)
    (request : HttpRequest) (world : World) :
    (server.answer state request world).1.1.requestBuffer = state.requestBuffer := by
  unfold answer
  split_ifs <;> rfl

def readLoop (server : WorldServer World) (state : State) (world : World) :
    (State × Option NumberError) × World :=
  match _found : nextFrame state.requestBuffer with
  | .error error => ((state, some error), world)
  | .ok .incomplete => ((startRead state, none), world)
  | .ok .tooLarge => ((respond state none payloadTooLargeResponse.toString true, none), world)
  | .ok (.complete size) =>
      let request := parseRequest (state.requestBuffer.take size)
      let answered := server.answer (extract state size) request world
      if answered.1.2 then ((answered.1.1, none), answered.2)
      else readLoop server answered.1.1 answered.2
termination_by state.requestBuffer.length
decreasing_by
  have bounds := next_frame_complete_bounds _found
  simp only [answer_request_buffer, extract, List.length_drop]
  omega

def handleRead (server : WorldServer World) (state : State) (error : Bool)
    (bytesTransferred : Nat) (world : World) : (State × Option NumberError) × World :=
  if error then ((safeDelete state, none), world)
  else if maxRequestSize < state.requestBuffer.length + bytesTransferred then
    ((respondOversize state, none), world)
  else
    server.readLoop
      { state with requestBuffer := state.requestBuffer ++ state.data.take bytesTransferred } world

/-- The server whose handlers find these worlds, each the one with its number. -/
def finding (server : WorldServer World) (worlds : Nat → World) : Server where
  routes := server.routes
  handle := fun count best payload request => (server.handle best payload request (worlds count)).1

/-- A read is what calls the handlers; the other events know nothing of them. -/
def step (server : WorldServer World) (place : State × World) : Event → Option (State × World)
  | .readDone index =>
      if place.1.deleted then none
      else match place.1.reads[index]? with
        | some (some chunk) =>
            let handled := server.handleRead
              { place.1 with reads := place.1.reads.eraseIdx index } false chunk.length place.2
            some (countEscape handled.1, handled.2)
        | _ => none
  | event =>
      (Session.step (server.finding fun _ => place.2) place.1 event).map fun next =>
        (next, place.2)

/-! ## The worlds that the handlers have found -/

def leaves (server : WorldServer World) (world : World) (responses : List Response) : World :=
  responses.foldl (fun world response =>
    match response.request with
    | none => world
    | some request => (server.dispatch request world).2) world

/-- From a count on the handlers find what the responses added before them left. -/
def Follows (server : WorldServer World) (worlds : Nat → World) (count : Nat) (world : World)
    (added : List Response) : Prop :=
  ∀ place < added.length, worlds (count + place) = server.leaves world (added.take place)

/-- What was done in a world is done without it where the handlers find what the
responses before them left, and the world that is left is that of all of them. -/
def Replayed (server : WorldServer World) (before : List Response) (world : World)
    (after : List Response) (left : World) (done : Server → Prop) : Prop :=
  ∃ added, after = before ++ added ∧ left = server.leaves world added ∧
    ∀ worlds, server.Follows worlds before.length world added → done (server.finding worlds)

section Replaying

variable {server : WorldServer World} {before middle after : List Response}
  {world left last : World} {first second both : Server → Prop}

theorem leaves_append (server : WorldServer World) (world : World) (early late : List Response) :
    server.leaves world (early ++ late) = server.leaves (server.leaves world early) late :=
  List.foldl_append

theorem follows_of_start (server : WorldServer World) (world : World) (added : List Response) :
    server.Follows (fun count => server.leaves world (added.take count)) 0 world added := by
  intro place _
  rw [Nat.zero_add]

theorem follows_tail {worlds : Nat → World} {count : Nat} {response : Response}
    {later : List Response} (follows : server.Follows worlds count world (response :: later)) :
    server.Follows worlds (count + 1) (server.leaves world [response]) later := by
  intro place inside
  have found := follows (place + 1) (Nat.succ_lt_succ inside)
  rw [List.take_succ_cons, ← List.singleton_append, leaves_append] at found
  rw [← found]
  congr 1
  omega

theorem replayed_unanswered (always : ∀ asked, first asked) :
    server.Replayed before world before world first :=
  ⟨[], (List.append_nil before).symm, rfl, fun _ _ => always _⟩

theorem replayed_trans (one : server.Replayed before world middle left first)
    (other : server.Replayed middle left after last second)
    (compose : ∀ asked, first asked → second asked → both asked) :
    server.Replayed before world after last both := by
  obtain ⟨early, rfl, rfl, doneFirst⟩ := one
  obtain ⟨late, rfl, rfl, doneSecond⟩ := other
  refine ⟨early ++ late, List.append_assoc _ _ _, (leaves_append _ _ _ _).symm, ?_⟩
  intro worlds follows
  apply compose
  · apply doneFirst
    intro place inside
    rw [follows place (by rw [List.length_append]; omega),
      List.take_append_of_le_length (Nat.le_of_lt inside)]
  · apply doneSecond
    intro place inside
    have found := follows (early.length + place) (by rw [List.length_append]; omega)
    rw [List.take_length_add_append, leaves_append, ← Nat.add_assoc] at found
    rw [List.length_append, found]

theorem replayed_mono (one : server.Replayed before world after left first)
    (implies : ∀ asked, first asked → second asked) :
    server.Replayed before world after left second := by
  obtain ⟨added, isAfter, isLeft, done⟩ := one
  exact ⟨added, isAfter, isLeft, fun worlds follows => implies _ (done worlds follows)⟩

end Replaying

/-! ## The session -/

section Steps

variable {server : WorldServer World} {state : State} {world : World}

theorem dispatch_finding (server : WorldServer World) (worlds : Nat → World) (count : Nat)
    (request : HttpRequest) :
    Session.dispatch (server.finding worlds) count request =
      (server.dispatch request (worlds count)).1 := by
  unfold Session.dispatch dispatch finding
  cases bestPrefix server.routes request.path with
  | none => rfl
  | some best =>
      simp only
      cases server.routes.find? best <;> rfl

/-- Every answer is one response. -/
theorem answer_replayed (server : WorldServer World) (state : State) (request : HttpRequest)
    (world : World) :
    server.Replayed state.responses world
      (server.answer state request world).1.1.responses (server.answer state request world).2
      fun asked => Session.answer asked state request = (server.answer state request world).1 := by
  unfold answer Session.answer
  split_ifs with malformed version
  · exact ⟨[⟨none, badRequestResponse.toString, true⟩], rfl, rfl, fun _ _ => rfl⟩
  · exact ⟨[⟨none, badRequestResponse.toString, true⟩], rfl, rfl, fun _ _ => rfl⟩
  · refine ⟨[⟨some request, _, _⟩], rfl, rfl, fun worlds follows => ?_⟩
    have found : worlds state.responses.length = world := follows 0 (by simp)
    simp only [dispatch_finding, found]

theorem read_loop_complete {size : Nat}
    (found : nextFrame state.requestBuffer = .ok (.complete size)) :
    server.readLoop state world =
      let answered := server.answer (extract state size)
        (parseRequest (state.requestBuffer.take size)) world
      if answered.1.2 then ((answered.1.1, none), answered.2)
      else server.readLoop answered.1.1 answered.2 := by
  rw [readLoop]
  split <;> simp_all

theorem read_loop_replayed (server : WorldServer World) (state : State) (world : World) :
    server.Replayed state.responses world
      (server.readLoop state world).1.1.responses (server.readLoop state world).2
      fun asked => Session.readLoop asked state = (server.readLoop state world).1 := by
  induction state, world using readLoop.induct server with
  | case1 state world error found =>
      have loop : server.readLoop state world = ((state, some error), world) := by
        rw [readLoop]
        split <;> simp_all
      rw [loop]
      exact replayed_unanswered fun asked => read_loop_threw found
  | case2 state world found =>
      have loop : server.readLoop state world = ((startRead state, none), world) := by
        rw [readLoop]
        split <;> simp_all
      rw [loop]
      exact replayed_unanswered fun asked => read_loop_incomplete found
  | case3 state world found =>
      have loop : server.readLoop state world =
          ((respond state none payloadTooLargeResponse.toString true, none), world) := by
        rw [readLoop]
        split <;> simp_all
      rw [loop]
      refine ⟨[⟨none, payloadTooLargeResponse.toString, true⟩], rfl, rfl, fun worlds _ => ?_⟩
      exact read_loop_too_large found
  | case4 state world size found request answered ends =>
      rw [read_loop_complete found]
      simp only
      rw [if_pos ends]
      apply replayed_mono (answer_replayed server (extract state size) request world)
      intro asked same
      rw [Session.read_loop_complete found, same, if_pos ends]
  | case5 state world size found request answered keeps ih =>
      rw [read_loop_complete found]
      simp only
      rw [if_neg keeps]
      apply replayed_trans (answer_replayed server (extract state size) request world) ih
      intro asked first rest
      rw [Session.read_loop_complete found, first, if_neg keeps]
      exact rest

theorem handle_read_replayed (server : WorldServer World) (state : State) (size : Nat)
    (world : World) :
    server.Replayed state.responses world
      (server.handleRead state false size world).1.1.responses
      (server.handleRead state false size world).2
      fun asked => Session.handleRead asked state false size =
        (server.handleRead state false size world).1 := by
  unfold handleRead Session.handleRead
  simp only [Bool.false_eq_true, if_false]
  split_ifs with exceeds
  · exact ⟨[⟨none, errorResponse, true⟩], rfl, rfl, fun _ _ => rfl⟩
  · exact read_loop_replayed server _ world

theorem safe_delete_responses (state : State) : (safeDelete state).responses = state.responses := by
  unfold safeDelete
  split_ifs <;> rfl

/-- An event other than a read answers nothing and asks no handler. -/
theorem step_unread {asked : Server} {event : Event} {next : State}
    (unread : ∀ index, event ≠ .readDone index)
    (stepped : Session.step asked state event = some next) :
    next.responses = state.responses ∧ ∀ other, Session.step other state event = some next := by
  constructor
  · obtain ⟨_, effect⟩ := step_effect stepped
    cases effect with
    | oversize index | batch index => exact absurd rfl (unread index)
    | readError | writeClosed | writeError => exact safe_delete_responses _
    | _ => rfl
  · intro other
    cases event with
    | readDone index => exact absurd rfl (unread index)
    | _ => exact stepped

theorem replayed_unread {event : Event} {next : State} {left : World}
    (unread : ∀ index, event ≠ .readDone index)
    (stepped : ((Session.step (server.finding fun _ => world) state event).map fun next =>
      (next, world)) = some (next, left)) :
    server.Replayed state.responses world next.responses left
      fun asked => Session.step asked state event = some next := by
  obtain ⟨session, done, same⟩ := Option.map_eq_some_iff.mp stepped
  cases same
  obtain ⟨kept, always⟩ := step_unread unread done
  rw [kept]
  exact replayed_unanswered always

theorem step_replayed {event : Event} {next : State} {left : World}
    (stepped : server.step (state, world) event = some (next, left)) :
    server.Replayed state.responses world next.responses left
      fun asked => Session.step asked state event = some next := by
  cases event with
  | readDone index =>
      simp only [step] at stepped
      split_ifs at stepped with live
      split at stepped
      · rename_i chunk ready
        cases stepped
        apply replayed_mono (handle_read_replayed server
          { state with reads := state.reads.eraseIdx index } chunk.length world)
        intro asked same
        rw [Session.step, if_neg live]
        simp only [ready, same]
      · cases stepped
  | arrive | readError | transmit | writeDone | writeError =>
      exact replayed_unread (by simp) stepped

end Steps

/-! ## Whole runs -/

section Runs

variable {Place Happening : Type} {server : WorldServer World} {responses : Place → List Response}
  {inWorld : Place × World → Happening → Option (Place × World)}
  {step : Server → Place → Happening → Option Place}

theorem run_replayed
    (replays : ∀ place world event next left, inWorld (place, world) event = some (next, left) →
      server.Replayed (responses place) world (responses next) left
        fun asked => step asked place event = some next)
    {events : List Happening} {place last : Place} {world left : World}
    (ran : run inWorld (place, world) events = some (last, left)) :
    server.Replayed (responses place) world (responses last) left
      fun asked => run (step asked) place events = some last := by
  induction events generalizing place world with
  | nil =>
      cases ran
      exact replayed_unanswered fun asked => rfl
  | cons event events ih =>
      obtain ⟨⟨middle, found⟩, stepped, later⟩ := run_cons_eq_some ran
      apply replayed_trans (replays _ _ _ _ _ stepped) (ih later)
      intro asked first rest
      rw [run_cons_of_step events first, rest]

end Runs

/-! ## A client that waits -/

/-- A client that waits, with handlers that share a world. -/
def lockstep (server : WorldServer World) (place : Lockstep × World) :
    Lockstep.Event → Option (Lockstep × World)
  | .handleRead index =>
      (server.step (place.1.session, place.2) (.readDone index)).map fun next =>
        (place.1.withSession next.1, next.2)
  | event =>
      (Lockstep.step (server.finding fun _ => place.2) place.1 event).map fun next =>
        (next, place.2)

section Waiting

variable {server : WorldServer World} {waiting : Lockstep} {world : World}

/-- What the client and the network do answers nothing and asks no handler. -/
theorem lockstep_unread {asked : Server} {event : Lockstep.Event} {next : Lockstep}
    (unread : ∀ index, event ≠ .handleRead index)
    (stepped : Lockstep.step asked waiting event = some next) :
    next.session.responses = waiting.session.responses ∧
      ∀ other, Lockstep.step other waiting event = some next := by
  constructor
  · cases event with
    | handleRead index => exact absurd rfl (unread index)
    | ask =>
        simp only [Lockstep.step] at stepped
        split at stepped
        · cases stepped
        · split_ifs at stepped
          cases stepped
          rfl
    | send index size =>
        simp only [Lockstep.step, stepInTurn] at stepped
        split_ifs at stepped
        · obtain ⟨session, arrived, same⟩ := Option.map_eq_some_iff.mp stepped
          cases same
          exact (step_unread (by simp) arrived).1
        · cases stepped
    | transmit index junk =>
        obtain ⟨session, done, same⟩ := Option.map_eq_some_iff.mp stepped
        cases same
        exact (@step_unread _ asked (.transmit index junk) _ (by simp) done).1
    | handleWrite index =>
        obtain ⟨session, done, same⟩ := Option.map_eq_some_iff.mp stepped
        cases same
        exact (@step_unread _ asked (.writeDone index true) _ (by simp) done).1
  · intro other
    cases event with
    | handleRead index => exact absurd rfl (unread index)
    | _ => exact stepped

theorem lockstep_replayed_unread {event : Lockstep.Event} {next : Lockstep} {left : World}
    (unread : ∀ index, event ≠ .handleRead index)
    (stepped : ((Lockstep.step (server.finding fun _ => world) waiting event).map fun next =>
      (next, world)) = some (next, left)) :
    server.Replayed waiting.session.responses world next.session.responses left
      fun asked => Lockstep.step asked waiting event = some next := by
  obtain ⟨moved, done, same⟩ := Option.map_eq_some_iff.mp stepped
  cases same
  obtain ⟨kept, always⟩ := lockstep_unread unread done
  rw [kept]
  exact replayed_unanswered always

theorem lockstep_replayed {event : Lockstep.Event} {next : Lockstep} {left : World}
    (stepped : server.lockstep (waiting, world) event = some (next, left)) :
    server.Replayed waiting.session.responses world next.session.responses left
      fun asked => Lockstep.step asked waiting event = some next := by
  cases event with
  | handleRead index =>
      obtain ⟨⟨session, found⟩, handled, same⟩ := Option.map_eq_some_iff.mp stepped
      cases same
      apply replayed_mono (step_replayed handled)
      intro asked done
      change (Session.step asked waiting.session (.readDone index)).map waiting.withSession = _
      rw [done]
      rfl
  | ask | send | transmit | handleWrite => exact lockstep_replayed_unread (by simp) stepped

/-- With a world the same events are possible. -/
theorem lockstep_enabled (asked : Server) {event : Lockstep.Event}
    (stuck : server.lockstep (waiting, world) event = none) :
    Lockstep.step asked waiting event = none := by
  cases event with
  | handleRead index =>
      have read := Option.map_eq_none_iff.mp stuck
      rw [Lockstep.step, Option.map_eq_none_iff]
      simp only [stepInTurn, Session.step]
      simp only [step] at read
      by_cases deleted : waiting.session.deleted = true
      · rw [if_pos deleted]
      · rw [if_neg deleted] at read ⊢
        cases pending : waiting.session.reads[index]? with
        | none => rfl
        | some chunk =>
            cases chunk with
            | none => rfl
            | some chunk => simp only [pending, reduceCtorEq] at read
  | ask | send | transmit | handleWrite => exact Option.map_eq_none_iff.mp stuck

/-- A run of the client that waits is one with answers that are given by their number,
where the handlers have found what the responses before them led to. -/
theorem waiting_replayed {requests : List KeepAliveRequest} {events : List Lockstep.Event}
    {left : World}
    (ran : run server.lockstep (Lockstep.start requests, world) events = some (waiting, left)) :
    left = server.leaves world waiting.session.responses ∧
      run (Lockstep.step (server.finding fun count =>
        server.leaves world (waiting.session.responses.take count)))
        (Lockstep.start requests) events = some waiting := by
  obtain ⟨added, answered, isLeft, done⟩ := @run_replayed _ _ _ server
    (fun waiting => waiting.session.responses) _ Lockstep.step
    (fun _ _ _ _ _ => lockstep_replayed) _ _ _ _ _ ran
  have all : waiting.session.responses = added := answered
  rw [all]
  exact ⟨isLeft, done _ (follows_of_start server world added)⟩

end Waiting

end WorldServer

end RestfulWebserver.Session
