import RestfulWebserver.Session.Exceptions

/-!
# Handlers that throw

`handle_read` calls the factory and `handle_request` outside of any `try` block.
What they throw leaves it just as what `stoul` throws does, after the request has
been taken from the buffer and before anything has been written or read for it.
Where no handler throws, the session is the one with handlers that always answer.
-/

namespace RestfulWebserver.Session

open RestfulWebserver.Library RestfulWebserver.Http

structure ThrowingServer (Error : Type) where
  routes : RoutingMap
  handle : Nat → Bytes → RoutingPayload → HttpRequest → Except Error HttpResponse

inductive Escape (Error : Type) where
  | number (error : NumberError)
  | handler (error : Error)

def Escape.thrown? {Error : Type} : Escape Error → Option Error
  | .number _ => none
  | .handler error => some error

namespace ThrowingServer

variable {Error : Type}

def dispatch (server : ThrowingServer Error) (count : Nat) (request : HttpRequest) :
    Except Error HttpResponse :=
  match bestPrefix server.routes request.path with
  | none => .ok notFoundResponse
  | some best =>
      match server.routes.find? best with
      -- unreachable: `best` is one of the keys of the map
      | none => .ok notFoundResponse
      | some payload => server.handle count best payload request

def answer (server : ThrowingServer Error) (state : State) (request : HttpRequest) :
    State × Except Error Bool :=
  if malformed request then
    (respond state none badRequestResponse.toString true, .ok true)
  else if request.version ≠ httpVersion then
    (respond state none badRequestResponse.toString true, .ok true)
  else
    match server.dispatch state.responses.length request with
    | .error thrown => (state, .error thrown)
    | .ok response =>
        let close := closeConnection request
        (respond state (some request) (setConnection response close).toString close, .ok close)

theorem answer_request_buffer (server : ThrowingServer Error) (state : State)
    (request : HttpRequest) :
    (server.answer state request).1.requestBuffer = state.requestBuffer := by
  unfold answer
  split_ifs
  · rfl
  · rfl
  · split <;> rfl

def readLoop (server : ThrowingServer Error) (state : State) : State × Option (Escape Error) :=
  match _found : nextFrame state.requestBuffer with
  | .error error => (state, some (.number error))
  | .ok .incomplete => (startRead state, none)
  | .ok .tooLarge => (respond state none payloadTooLargeResponse.toString true, none)
  | .ok (.complete size) =>
      let request := parseRequest (state.requestBuffer.take size)
      let answered := server.answer (extract state size) request
      match answered.2 with
      | .error thrown => (answered.1, some (.handler thrown))
      | .ok true => (answered.1, none)
      | .ok false => readLoop server answered.1
termination_by state.requestBuffer.length
decreasing_by
  have bounds := next_frame_complete_bounds _found
  simp only [answer_request_buffer, extract, List.length_drop]
  omega

def handleRead (server : ThrowingServer Error) (state : State) (error : Bool)
    (bytesTransferred : Nat) : State × Option (Escape Error) :=
  if error then (safeDelete state, none)
  else if maxRequestSize < state.requestBuffer.length + bytesTransferred then
    (respondOversize state, none)
  else
    server.readLoop
      { state with requestBuffer := state.requestBuffer ++ state.data.take bytesTransferred }

/-- The server that answers 404 where this one throws. -/
def quiet (server : ThrowingServer Error) : Server where
  routes := server.routes
  handle := fun count best payload request =>
    match server.handle count best payload request with
    | .ok response => response
    | .error _ => notFoundResponse

def countEscape (outcome : State × Option (Escape Error)) : State :=
  { outcome.1 with escaped := outcome.1.escaped + if outcome.2.isSome then 1 else 0 }

/-- A read is what calls the handlers; the other events know nothing of them. -/
def step (server : ThrowingServer Error) (state : State) : Event → Option State
  | .readDone index =>
      if state.deleted then none
      else match state.reads[index]? with
        | some (some chunk) =>
            some (countEscape
              (server.handleRead { state with reads := state.reads.eraseIdx index } false
                chunk.length))
        | _ => none
  | event => Session.step server.quiet state event

def thrownIn (server : ThrowingServer Error) (state : State) : Event → Option (Escape Error)
  | .readDone index =>
      match state.reads[index]? with
      | some (some chunk) =>
          (server.handleRead { state with reads := state.reads.eraseIdx index } false
            chunk.length).2
      | _ => none
  | _ => none

/-! ## The first handler that throws -/

/-- The requests of a batch that a handler is made for. -/
def dispatched (taken : Batch) : List Bytes :=
  taken.kept ++ match taken.exit with
    | .closing full =>
        if malformed (parseRequest full) || (parseRequest full).version ≠ httpVersion then []
        else [full]
    | _ => []

/-- How many handlers answer before the first that throws, and what that throws. -/
def firstThrown (server : ThrowingServer Error) : Nat → List Bytes → Option (Nat × Error)
  | _, [] => none
  | count, full :: later =>
      match server.dispatch count (parseRequest full) with
      | .error thrown => some (0, thrown)
      | .ok _ => (server.firstThrown (count + 1) later).map fun found => (found.1 + 1, found.2)

/-- The state that a throwing handler leaves: what came before it in the buffer
has been answered, its own request is gone, and the rest is still there. -/
def broken (server : ThrowingServer Error) (state : State) (taken : Batch) (place : Nat) : State :=
  { writeResponses state
      (keptResponses server.quiet state.responses.length (taken.kept.take place)) with
    requestBuffer := state.requestBuffer.drop ((dispatched taken).take (place + 1)).flatten.length
    requests := state.requests ++ (dispatched taken).take (place + 1) }

section Turns

variable {server : ThrowingServer Error} {state : State}

theorem dispatch_quiet {count : Nat} {request : HttpRequest} {response : HttpResponse}
    (answered : server.dispatch count request = .ok response) :
    Session.dispatch server.quiet count request = response := by
  unfold dispatch at answered
  unfold Session.dispatch quiet
  cases matched : bestPrefix server.routes request.path with
  | none =>
      rw [matched] at answered
      cases answered
      rfl
  | some best =>
      simp only [matched] at answered ⊢
      cases stored : server.routes.find? best with
      | none =>
          rw [stored] at answered
          cases answered
          rfl
      | some payload =>
          simp only [stored] at answered ⊢
          rw [answered]

/-- A request that is refused, or whose handler answers. -/
theorem answer_calm (request : HttpRequest)
    (calm : malformed request = false → request.version = httpVersion →
      ∃ response, server.dispatch state.responses.length request = .ok response) :
    server.answer state request =
      ((Session.answer server.quiet state request).1,
        .ok (Session.answer server.quiet state request).2) := by
  unfold answer Session.answer
  split_ifs with wellFormed version
  · rfl
  · rfl
  · obtain ⟨response, answered⟩ := calm (by simpa using wellFormed) (by simpa using version)
    simp only [answered, dispatch_quiet answered]

theorem answer_thrown {request : HttpRequest} {thrown : Error}
    (wellFormed : malformed request = false) (version : request.version = httpVersion)
    (throws : server.dispatch state.responses.length request = .error thrown) :
    server.answer state request = (state, .error thrown) := by
  simp [answer, wellFormed, version, throws]

theorem keeps_dispatched {full : Bytes} (keeps : endsConnection (parseRequest full) = false) :
    malformed (parseRequest full) = false ∧ (parseRequest full).version = httpVersion := by
  simp only [endsConnection, Bool.or_eq_false_iff, decide_eq_false_iff_not, not_not] at keeps
  exact keeps.1

theorem dispatched_kept (full : Bytes) (taken : Batch) :
    dispatched ⟨full :: taken.kept, taken.exit, taken.rest⟩ = full :: dispatched taken := rfl

theorem first_thrown_none {count : Nat} {full : Bytes} {later : List Bytes}
    (calm : server.firstThrown count (full :: later) = none) :
    (∃ response, server.dispatch count (parseRequest full) = .ok response) ∧
      server.firstThrown (count + 1) later = none := by
  rw [firstThrown] at calm
  split at calm
  · cases calm
  · rename_i response answered
    exact ⟨⟨response, answered⟩, Option.map_eq_none_iff.mp calm⟩

theorem read_loop_complete {size : Nat}
    (found : nextFrame state.requestBuffer = .ok (.complete size)) :
    server.readLoop state =
      match (server.answer (extract state size)
          (parseRequest (state.requestBuffer.take size))).2 with
      | .error thrown => ((server.answer (extract state size)
          (parseRequest (state.requestBuffer.take size))).1, some (.handler thrown))
      | .ok true => ((server.answer (extract state size)
          (parseRequest (state.requestBuffer.take size))).1, none)
      | .ok false => server.readLoop (server.answer (extract state size)
          (parseRequest (state.requestBuffer.take size))).1 := by
  rw [readLoop]
  split <;> simp_all

theorem read_loop_number {error : NumberError}
    (found : nextFrame state.requestBuffer = .error error) :
    server.readLoop state = (state, some (.number error)) := by
  rw [readLoop]
  split <;> simp_all

theorem read_loop_waits (found : ∀ size, nextFrame state.requestBuffer ≠ .ok (.complete size)) :
    server.readLoop state = ((Session.readLoop server.quiet state).1,
      (Session.readLoop server.quiet state).2.map .number) := by
  cases next : nextFrame state.requestBuffer with
  | error error =>
      rw [Session.read_loop_threw next, readLoop]
      split <;> simp_all
  | ok frame =>
      cases frame with
      | incomplete =>
          rw [Session.read_loop_incomplete next, readLoop]
          split <;> simp_all
      | tooLarge =>
          rw [Session.read_loop_too_large next, readLoop]
          split <;> simp_all
      | complete size => exact absurd next (found size)

theorem read_loop_calm (calm : server.firstThrown state.responses.length
      (dispatched (batch state.requestBuffer)) = none) :
    server.readLoop state = ((Session.readLoop server.quiet state).1,
      (Session.readLoop server.quiet state).2.map .number) := by
  generalize buffered : state.requestBuffer = buffer at calm
  induction buffer using batch_induction generalizing state with
  | threw buffer error found =>
      subst buffered
      apply read_loop_waits
      simp [found]
  | incomplete buffer found =>
      subst buffered
      apply read_loop_waits
      simp [found]
  | tooLarge buffer found =>
      subst buffered
      apply read_loop_waits
      simp [found]
  | closing buffer size found ends =>
      subst buffered
      rw [batch_closing found ends] at calm
      have answered := @answer_calm _ server (extract state size)
        (parseRequest (state.requestBuffer.take size)) (by
          intro wellFormed version
          simp only [dispatched, wellFormed, version, ne_eq, not_true_eq_false, decide_false,
            Bool.or_self, Bool.false_eq_true, if_false, List.nil_append] at calm
          exact (first_thrown_none calm).1)
      rw [read_loop_complete found, Session.read_loop_complete found, answered,
        Session.answer_of_closing server.quiet _ _ ends]
      rfl
  | kept buffer size found keeps ih =>
      subst buffered
      rw [batch_kept found keeps, dispatched_kept] at calm
      obtain ⟨first, later⟩ := first_thrown_none calm
      have answered := @answer_calm _ server (extract state size)
        (parseRequest (state.requestBuffer.take size)) fun _ _ => first
      rw [read_loop_complete found, Session.read_loop_complete found, answered,
        Session.answer_of_kept server.quiet _ _ keeps]
      simp only [Bool.false_eq_true, if_false]
      apply ih
      · rfl
      · rw [writeResponses, List.length_append]
        exact later

theorem first_thrown_some {count place : Nat} {full : Bytes} {later : List Bytes} {thrown : Error}
    (throws : server.firstThrown count (full :: later) = some (place, thrown)) :
    (place = 0 ∧ server.dispatch count (parseRequest full) = .error thrown) ∨
      ∃ earlier response, place = earlier + 1 ∧
        server.dispatch count (parseRequest full) = .ok response ∧
        server.firstThrown (count + 1) later = some (earlier, thrown) := by
  rw [firstThrown] at throws
  split at throws
  · rename_i error same
    cases throws
    exact Or.inl ⟨rfl, same⟩
  · rename_i response answered
    obtain ⟨⟨earlier, error⟩, found, made⟩ := Option.map_eq_some_iff.mp throws
    cases made
    exact Or.inr ⟨earlier, response, rfl, answered, found⟩

theorem read_loop_thrown {size : Nat} {thrown : Error}
    (found : nextFrame state.requestBuffer = .ok (.complete size))
    (wellFormed : malformed (parseRequest (state.requestBuffer.take size)) = false)
    (version : (parseRequest (state.requestBuffer.take size)).version = httpVersion)
    (throws : server.dispatch state.responses.length
      (parseRequest (state.requestBuffer.take size)) = .error thrown) :
    server.readLoop state = (extract state size, some (.handler thrown)) := by
  rw [read_loop_complete found, @answer_thrown _ server (extract state size) _ _ wellFormed version
    throws]

/-- The first handler that throws ends the loop. -/
theorem read_loop_broken {place : Nat} {thrown : Error}
    (throws : server.firstThrown state.responses.length
      (dispatched (batch state.requestBuffer)) = some (place, thrown)) :
    server.readLoop state =
      (server.broken state (batch state.requestBuffer) place, some (.handler thrown)) := by
  generalize buffered : state.requestBuffer = buffer at throws
  induction buffer using batch_induction generalizing state place with
  | threw buffer error found =>
      rw [batch_threw found] at throws
      cases throws
  | incomplete buffer found =>
      rw [batch_incomplete found] at throws
      cases throws
  | tooLarge buffer found =>
      rw [batch_too_large found] at throws
      cases throws
  | closing buffer size found ends =>
      subst buffered
      have bounds := next_frame_complete_bounds found
      rw [batch_closing found ends] at throws ⊢
      simp only [dispatched, List.nil_append] at throws
      split_ifs at throws with refused
      · cases throws
      · rcases first_thrown_some throws with ⟨rfl, same⟩ | ⟨_, _, _, _, impossible⟩
        · simp only [Bool.or_eq_true, decide_eq_true_eq, not_or, Bool.not_eq_true, not_not]
            at refused
          rw [read_loop_thrown found refused.1 refused.2 same]
          simp [broken, dispatched, refused, keptResponses, write_responses_nil, extract,
            Nat.min_eq_left bounds.2]
        · cases impossible
  | kept buffer size found keeps ih =>
      subst buffered
      have bounds := next_frame_complete_bounds found
      obtain ⟨wellFormed, version⟩ := keeps_dispatched keeps
      rw [batch_kept found keeps, dispatched_kept] at throws
      rcases first_thrown_some throws with ⟨rfl, same⟩ | ⟨earlier, response, rfl, first, later⟩
      · rw [read_loop_thrown found wellFormed version same, batch_kept found keeps]
        simp [broken, dispatched, keptResponses, write_responses_nil, extract,
          Nat.min_eq_left bounds.2]
      · have answered := @answer_calm _ server (extract state size)
          (parseRequest (state.requestBuffer.take size)) fun _ _ => ⟨response, first⟩
        rw [read_loop_complete found, answered,
          Session.answer_of_kept server.quiet _ _ keeps]
        simp only
        have onward : server.firstThrown (writeResponses (extract state size)
            [keptResponse server.quiet (extract state size).responses.length
              (state.requestBuffer.take size)]).responses.length
            (dispatched (batch (state.requestBuffer.drop size))) = some (earlier, thrown) := by
          rw [writeResponses, List.length_append]
          exact later
        rw [ih rfl onward]
        rw [batch_kept found keeps]
        -- what the later turns answer is numbered from the response just written
        have number : (writeResponses (extract state size)
            [keptResponse server.quiet (extract state size).responses.length
              (state.requestBuffer.take size)]).responses.length = state.responses.length + 1 := by
          simp [writeResponses, extract]
        simp only [broken, dispatched_kept, number, List.take_succ_cons, keptResponses]
        simp [writeResponses, extract, pendingWrites, Nat.add_assoc, Nat.add_comm 1,
          Nat.min_eq_left bounds.2]

end Turns

/-! ## Steps and runs -/

def Calm (server : ThrowingServer Error) (state : State) : Event → Prop
  | .readDone index => ∀ chunk, state.reads[index]? = some (some chunk) →
      state.requestBuffer.length + chunk.length ≤ maxRequestSize →
      server.firstThrown state.responses.length
        (dispatched (batch (appended state index chunk).requestBuffer)) = none
  | _ => True

inductive Outcome (server : ThrowingServer Error) (state : State) : Event → State → Prop
  | calm (event : Event) (next : State)
      (stepped : Session.step server.quiet state event = some next)
      (thrown : ∀ escape ∈ server.thrownIn state event, escape.thrown? = none)
      (counted : next.escaped = state.escaped + (server.thrownIn state event).toList.length) :
      Outcome server state event next
  | broken (index : Nat) (chunk : Bytes) (place : Nat) (thrown : Error)
      (ready : state.reads[index]? = some (some chunk))
      (fits : state.requestBuffer.length + chunk.length ≤ maxRequestSize)
      (throws : server.firstThrown state.responses.length
        (dispatched (batch (appended state index chunk).requestBuffer)) = some (place, thrown))
      (same : server.thrownIn state (.readDone index) = some (.handler thrown)) :
      Outcome server state (.readDone index)
        { server.broken (appended state index chunk)
            (batch (appended state index chunk).requestBuffer) place with
          escaped := state.escaped + 1 }

section Steps

variable {server : ThrowingServer Error} {state next : State} {event : Event}

theorem handle_read_calm {index : Nat} {chunk : Bytes}
    (calm : state.requestBuffer.length + chunk.length ≤ maxRequestSize →
      server.firstThrown state.responses.length
        (dispatched (batch (appended state index chunk).requestBuffer)) = none) :
    server.handleRead { state with reads := state.reads.eraseIdx index } false chunk.length =
      ((Session.handleRead server.quiet { state with reads := state.reads.eraseIdx index } false
        chunk.length).1,
      (Session.handleRead server.quiet { state with reads := state.reads.eraseIdx index } false
        chunk.length).2.map .number) := by
  by_cases exceeds : maxRequestSize < state.requestBuffer.length + chunk.length
  · simp [handleRead, Session.handleRead, exceeds]
  · simp only [handleRead, Session.handleRead, if_neg exceeds, Bool.false_eq_true, if_false]
    exact read_loop_calm (calm (by omega))

theorem handle_read_broken {index : Nat} {chunk : Bytes} {place : Nat} {thrown : Error}
    (fits : state.requestBuffer.length + chunk.length ≤ maxRequestSize)
    (throws : server.firstThrown state.responses.length
      (dispatched (batch (appended state index chunk).requestBuffer)) = some (place, thrown)) :
    server.handleRead { state with reads := state.reads.eraseIdx index } false chunk.length =
      (server.broken (appended state index chunk)
        (batch (appended state index chunk).requestBuffer) place, some (.handler thrown)) := by
  have small : ¬ maxRequestSize < state.requestBuffer.length + chunk.length := by omega
  simp only [handleRead, if_neg small, Bool.false_eq_true, if_false]
  exact @read_loop_broken _ _ (appended state index chunk) _ _ throws

/-- Where no handler throws, a step is one of the quiet server. -/
theorem step_calm (calm : server.Calm state event) :
    server.step state event = Session.step server.quiet state event := by
  cases event with
  | readDone index =>
      simp only [step, Session.step]
      split_ifs
      · rfl
      · cases ready : state.reads[index]? with
        | none => rfl
        | some read =>
            cases read with
            | none => rfl
            | some chunk =>
                simp only [handle_read_calm (calm chunk ready), countEscape, Session.countEscape,
                  Option.isSome_map]
  | _ => rfl

theorem thrown_in_calm (calm : server.Calm state event) :
    ∀ escape ∈ server.thrownIn state event, escape.thrown? = none := by
  cases event with
  | readDone index =>
      intro escape thrown
      cases ready : state.reads[index]? with
      | none => simp [thrownIn, ready] at thrown
      | some read =>
          cases read with
          | none => simp [thrownIn, ready] at thrown
          | some chunk =>
              simp only [thrownIn, ready, handle_read_calm (calm chunk ready), Option.mem_def,
                Option.map_eq_some_iff] at thrown
              obtain ⟨error, _, rfl⟩ := thrown
              rfl
  | _ => simp [thrownIn]

theorem escaped_calm (calm : server.Calm state event)
    (effect : Effect server.quiet state event next) :
    next.escaped = state.escaped + (server.thrownIn state event).toList.length := by
  cases effect with
  | oversize index chunk ready exceeds =>
      simp [thrownIn, ready, handleRead, exceeds, respondOversize]
  | batch index chunk ready fits taken cut =>
      have small : ¬ maxRequestSize < state.requestBuffer.length + chunk.length := by omega
      subst cut
      simp [thrownIn, ready, handle_read_calm (calm chunk ready), Session.handleRead, small,
        Session.read_loop_eq, appended, Option.length_toList]
  | arrive | transmit | writeOpen => rfl
  | readError | writeClosed | writeError =>
      unfold safeDelete
      split_ifs <;> rfl

theorem step_outcome (stepped : server.step state event = some next) :
    state.deleted = false ∧ Outcome server state event next := by
  by_cases calm : server.Calm state event
  · rw [step_calm calm] at stepped
    obtain ⟨live, effect⟩ := step_effect stepped
    exact ⟨live, .calm event next stepped (thrown_in_calm calm) (escaped_calm calm effect)⟩
  · cases event with
    | readDone index =>
        simp only [Calm, not_forall] at calm
        obtain ⟨chunk, ready, fits, some_thrown⟩ := calm
        obtain ⟨⟨place, thrown⟩, throws⟩ := Option.ne_none_iff_exists'.mp some_thrown
        have same := handle_read_broken fits throws
        simp only [step, ready, same] at stepped
        split at stepped
        · cases stepped
        · rename_i live
          cases stepped
          refine ⟨by simpa using live, ?_⟩
          exact .broken index chunk place thrown ready fits throws (by simp [thrownIn, ready, same])
    | _ => exact absurd trivial calm

theorem step_escaped (stepped : server.step state event = some next) :
    next.escaped = state.escaped + (server.thrownIn state event).toList.length := by
  obtain ⟨_, outcome⟩ := step_outcome stepped
  cases outcome with
  | calm _ _ _ _ counted => exact counted
  | broken index chunk place thrown ready fits throws same => rw [same]; rfl

end Steps

/-! ## Connections that hang -/

section Hanging

variable {server : ThrowingServer Error} {state next : State}

theorem kept_responses_count (quiet : Server) (count : Nat) (fulls : List Bytes) :
    (keptResponses quiet count fulls).countP (fun response => !response.close) =
      (keptResponses quiet count fulls).length := by
  rw [List.countP_eq_length]
  intro response member
  rw [kept_responses_open quiet count fulls response member]
  rfl

theorem balanced_broken {index : Nat} {chunk : Bytes} (ready : state.reads[index]? = some (some chunk))
    (live : state.deleted = false) (balanced : Balanced state) (place : Nat) :
    Balanced { server.broken (appended state index chunk)
      (batch (appended state index chunk).requestBuffer) place with
        escaped := state.escaped + 1 } := by
  obtain ⟨flag, count⟩ := balanced
  have erased := length_erase_of_some ready
  refine ⟨flag, ?_⟩
  simp only [broken, writeResponses, appended, live, keepAliveAnswers, List.length_append,
    List.countP_append, pending_writes_length, kept_responses_count, Bool.false_eq_true,
    if_false] at count ⊢
  omega

theorem balanced_run {events : List Event} (ran : run server.step start events = some state) :
    Balanced state := by
  apply invariant_of_run balanced_start _ ran
  intro before event after balanced stepped
  obtain ⟨live, outcome⟩ := step_outcome stepped
  cases outcome with
  | calm _ _ quietStep thrown counted =>
      exact balanced_effect live (step_effect quietStep).2 balanced
  | broken index chunk place thrown ready fits throws same =>
      exact balanced_broken ready live balanced place

/-- Whatever is outstanding can still complete. -/
theorem outstanding_steps (live : state.deleted = false)
    (outstanding : state.reads ≠ [] ∨ state.writes ≠ []) :
    ∃ event next, server.step state event = some next := by
  rcases outstanding with some_read | some_write
  · obtain ⟨read, others, reads⟩ := List.exists_cons_of_ne_nil some_read
    cases read with
    | none =>
        refine ⟨.readError 0, Option.isSome_iff_exists.mp ?_⟩
        simp only [step, Session.step, live, reads, Bool.false_eq_true, if_false,
          List.getElem?_cons_zero, Option.isSome_some]
    | some chunk =>
        refine ⟨.readDone 0, Option.isSome_iff_exists.mp ?_⟩
        simp only [step, live, reads, Bool.false_eq_true, if_false, List.getElem?_cons_zero,
          Option.isSome_some]
  · obtain ⟨write, others, writes⟩ := List.exists_cons_of_ne_nil some_write
    refine ⟨.writeError 0, Option.isSome_iff_exists.mp ?_⟩
    simp only [step, Session.step, live, writes, Bool.false_eq_true, if_false,
      List.getElem?_cons_zero, Option.isSome_some]

theorem nothing_steps (noReads : state.reads = []) (noWrites : state.writes = []) (event : Event) :
    server.step state event = none := by
  cases event <;> simp [step, Session.step, noReads, noWrites]

/-- A session that has not been deleted hangs, with nothing outstanding that
could ever complete, exactly when all its operations were lost to exceptions:
the first read, and one more for each keep-alive answer. -/
theorem connection_hangs_iff (server : ThrowingServer Error) {events : List Event}
    (ran : run server.step start events = some state) :
    (state.deleted = false ∧ ∀ event, server.step state event = none) ↔
      state.escaped = 1 + keepAliveAnswers state := by
  have count := (balanced_run ran).count
  constructor
  · rintro ⟨live, stuck⟩
    have nothing : ¬ (state.reads ≠ [] ∨ state.writes ≠ []) := by
      intro outstanding
      obtain ⟨event, next, stepped⟩ := @outstanding_steps _ server _ live outstanding
      cases (stuck event).symm.trans stepped
    rw [not_or, not_not, not_not] at nothing
    simpa [live, nothing.1, nothing.2] using count
  · intro all
    have live : state.deleted = false := by
      by_contra deleted
      simp only [Bool.not_eq_false] at deleted
      simp only [deleted, if_true] at count
      omega
    have none_left : state.reads.length + state.writes.length = 0 := by omega
    refine ⟨live, fun event => nothing_steps ?_ ?_ event⟩
    · exact List.length_eq_zero_iff.mp (by omega)
    · exact List.length_eq_zero_iff.mp (by omega)

def arrivedWith (packet : Bytes) : State :=
  { start with
    data := fill start.data packet
    reads := [some packet]
    received := packet }

def deadAfter (packet : Bytes) : State :=
  { arrivedWith packet with
    reads := []
    requestBuffer := packet
    escaped := 1 }

section FirstPacket

variable {packet : Bytes} {error : NumberError} (server : ThrowingServer Error)

theorem first_arrival (positive : 0 < packet.length) (bounded : packet.length ≤ maxLength) :
    server.step start (.arrive 0 packet) = some (arrivedWith packet) := by
  have waits : start.reads = [none] := rfl
  have live : start.deleted = false := rfl
  have fresh : start.received = [] := rfl
  simp [step, Session.step, waits, live, fresh, positive, bounded, arrivedWith]

theorem first_read_outcome (bounded : packet.length ≤ maxLength)
    (threw : nextFrame packet = .error error) :
    server.handleRead { arrivedWith packet with
        reads := (arrivedWith packet).reads.eraseIdx 0 } false packet.length =
      ({ arrivedWith packet with reads := [], requestBuffer := packet }, some (.number error)) := by
  have small : ¬ maxRequestSize < packet.length := by
    unfold maxLength at bounded
    unfold maxRequestSize
    omega
  have empty : (arrivedWith packet).requestBuffer = [] := rfl
  have filled : (arrivedWith packet).data.take packet.length = packet := by
    simp [arrivedWith, fill]
  simp only [handleRead, Bool.false_eq_true, if_false, empty, List.length_nil, Nat.zero_add, small,
    List.nil_append, filled]
  exact @read_loop_number _ _ { arrivedWith packet with reads := [], requestBuffer := packet } _
    threw

theorem first_read (bounded : packet.length ≤ maxLength)
    (threw : nextFrame packet = .error error) :
    server.step (arrivedWith packet) (.readDone 0) = some (deadAfter packet) := by
  have taken : server.step (arrivedWith packet) (.readDone 0) =
      some (countEscape (server.handleRead { arrivedWith packet with
        reads := (arrivedWith packet).reads.eraseIdx 0 } false packet.length)) := rfl
  rw [taken, first_read_outcome server bounded threw]
  rfl

theorem first_read_throws (bounded : packet.length ≤ maxLength)
    (threw : nextFrame packet = .error error) :
    server.thrownIn (arrivedWith packet) (.readDone 0) = some (.number error) := by
  have taken : server.thrownIn (arrivedWith packet) (.readDone 0) =
      (server.handleRead { arrivedWith packet with
        reads := (arrivedWith packet).reads.eraseIdx 0 } false packet.length).2 := rfl
  rw [taken, first_read_outcome server bounded threw]

end FirstPacket

def unmadeServer : ThrowingServer Unit where
  routes := OrderedMap.empty.assign "/".toList ⟨"Unknown".toList, OrderedMap.empty⟩
  handle := fun _ _ _ _ => .error ()

theorem connection_hangs_first :
    ∃ state, run unmadeServer.step start [.arrive 0 keepAliveGet, .readDone 0] = some state ∧
      state.deleted = false ∧ ∀ event, unmadeServer.step state event = none := by
  have outcome : (run unmadeServer.step start [.arrive 0 keepAliveGet, .readDone 0]).map
      (fun state => (state.escaped, state.responses.length)) = some (1, 0) := by
    decide +kernel
  obtain ⟨state, ran, shape⟩ := Option.map_eq_some_iff.mp outcome
  simp only [Prod.mk.injEq, List.length_eq_zero_iff] at shape
  refine ⟨state, ran, (connection_hangs_iff unmadeServer ran).mpr ?_⟩
  rw [keepAliveAnswers, shape.1, shape.2]
  rfl

end Hanging

end ThrowingServer

end RestfulWebserver.Session
