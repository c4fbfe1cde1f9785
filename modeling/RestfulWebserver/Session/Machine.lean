import RestfulWebserver.Session.Framing
import RestfulWebserver.Session.Routing

/-!
# A session and its asynchronous operations

`session::handle_read`, `session::handle_write` and `session::safe_delete`, on
the members of the class together with the reads and writes that Boost.Asio
holds for it. A handler runs to its end before the next completion is looked
at. Completions arrive in any order, and between the arrival of bytes and the
call of `handle_read` anything else may happen.

`async_write` refers to storage, not to a copy: its buffer is the value that
`current_response_` got by its latest assignment, and assigning the string
again invalidates it, as the standard says of any pointer into a string. The
local `error_response` of the oversize branch is gone when the handler returns.
-/

namespace RestfulWebserver.Session

open RestfulWebserver.Library RestfulWebserver.Http

inductive Storage where
  /-- `current_response_`, as left by its assignment with this number. -/
  | currentResponse (assignment : Nat)
  /-- The string on the stack of the oversize branch. -/
  | errorResponse
  deriving DecidableEq, Repr

structure PendingWrite where
  /-- The bytes the buffer held when the write was started. -/
  text : Bytes
  storage : Storage
  /-- Whether Asio has read the buffer. -/
  sent : Bool

structure Response where
  /-- The request that was dispatched for it; none for 400 and 413. -/
  request : Option HttpRequest
  text : Bytes
  /-- Whether it carries `Connection: close`. -/
  close : Bool

structure State where
  -- the members of class session
  data : Bytes
  requestBuffer : Bytes
  alreadyDeleted : Bool
  currentResponse : Bytes
  /-- How often `current_response_` has been assigned. -/
  assignments : Nat
  /-- Whether `delete this` has been executed. -/
  deleted : Bool
  /-- The outstanding `async_read_some` calls, each with the chunk that has been
  put into `data_` for it, if one has. -/
  reads : List (Option Bytes)
  writes : List PendingWrite
  -- what has happened so far
  received : Bytes
  requests : List Bytes
  responses : List Response
  wire : List Bytes
  readsStarted : Nat
  writesDone : Nat
  escaped : Nat

/-- A session as its constructor leaves it. -/
def constructed : State where
  data := List.replicate maxLength '\x00'
  requestBuffer := []
  alreadyDeleted := false
  currentResponse := []
  assignments := 0
  deleted := false
  reads := []
  writes := []
  received := []
  requests := []
  responses := []
  wire := []
  readsStarted := 0
  writesDone := 0
  escaped := 0

def startRead (state : State) : State :=
  { state with reads := state.reads ++ [none], readsStarted := state.readsStarted + 1 }

def start : State := startRead constructed

def safeDelete (state : State) : State :=
  if state.alreadyDeleted then state
  else { state with alreadyDeleted := true, deleted := true }

/-- Assign `current_response_` and start writing it. -/
def respond (state : State) (request : Option HttpRequest) (text : Bytes) (close : Bool) : State :=
  { state with
    currentResponse := text
    assignments := state.assignments + 1
    writes := state.writes ++ [⟨text, .currentResponse (state.assignments + 1), false⟩]
    responses := state.responses ++ [⟨request, text, close⟩] }

def errorResponse : Bytes :=
  ("HTTP/1.1 413 Payload Too Large\r\n" ++ "Content-Length: 0\r\n" ++ "Connection: close\r\n" ++
    "\r\n").toList

/-- The oversize branch: the new chunk is dropped, `current_response_` gets a
copy, and the write refers to the local string. -/
def respondOversize (state : State) : State :=
  { state with
    currentResponse := errorResponse
    assignments := state.assignments + 1
    writes := state.writes ++ [⟨errorResponse, .errorResponse, false⟩]
    responses := state.responses ++ [⟨none, errorResponse, true⟩] }

/-- The responses that the session builds itself. -/
def plainResponse (status : StatusCode) (body : Bytes) : HttpResponse :=
  { status := status
    headers := ((OrderedMap.empty.assign "Content-Type".toList "text/plain".toList).assign
      "Content-Length".toList (toDecimal body.length)).assign
      "Connection".toList "close".toList
    body := body }

def payloadTooLargeResponse : HttpResponse :=
  plainResponse .payloadTooLarge "413 Payload Too Large".toList

def badRequestResponse : HttpResponse := plainResponse .badRequest "400 Bad Request\n".toList

def setConnection (response : HttpResponse) (close : Bool) : HttpResponse :=
  { response with
    headers := response.headers.assign "Connection".toList
      (if close then "close".toList else "keep-alive".toList) }

/-- The body of the loop after the extraction: check the request, dispatch it
and start writing the response. The flag tells whether `handle_read` returns. -/
def answer (server : Server) (state : State) (request : HttpRequest) : State × Bool :=
  if malformed request then
    (respond state none badRequestResponse.toString true, true)
  else if request.version ≠ httpVersion then
    (respond state none badRequestResponse.toString true, true)
  else
    let close := closeConnection request
    let response := setConnection (dispatch server state.responses.length request) close
    (respond state (some request) response.toString close, close)

def extract (state : State) (size : Nat) : State :=
  { state with
    requests := state.requests ++ [state.requestBuffer.take size]
    requestBuffer := state.requestBuffer.drop size }

@[simp] theorem answer_request_buffer (server : Server) (state : State) (request : HttpRequest) :
    (answer server state request).1.requestBuffer = state.requestBuffer := by
  unfold answer
  split_ifs <;> rfl

/-- The loop of `session::handle_read`, with the exception that leaves it. -/
def readLoop (server : Server) (state : State) : State × Option NumberError :=
  match _found : nextFrame state.requestBuffer with
  | .error error => (state, some error)
  | .ok .incomplete => (startRead state, none)
  | .ok .tooLarge => (respond state none payloadTooLargeResponse.toString true, none)
  | .ok (.complete size) =>
      let request := parseRequest (state.requestBuffer.take size)
      let answered := answer server (extract state size) request
      if answered.2 then (answered.1, none) else readLoop server answered.1
termination_by state.requestBuffer.length
decreasing_by
  have bounds := next_frame_complete_bounds _found
  simp only [answer_request_buffer, extract, List.length_drop]
  omega

def handleRead (server : Server) (state : State) (error : Bool) (bytesTransferred : Nat) :
    State × Option NumberError :=
  if error then (safeDelete state, none)
  else if maxRequestSize < state.requestBuffer.length + bytesTransferred then
    (respondOversize state, none)
  else
    readLoop server
      { state with requestBuffer := state.requestBuffer ++ state.data.take bytesTransferred }

def handleWrite (state : State) (error isOpen : Bool) : State :=
  if error then safeDelete state
  else if isOpen then startRead state
  else safeDelete state

/-! ## Steps -/

inductive Event where
  /-- Bytes are put into `data_` for an outstanding read. -/
  | arrive (index : Nat) (chunk : Bytes)
  /-- `handle_read` runs for a read whose bytes have arrived. -/
  | readDone (index : Nat)
  /-- `handle_read` runs for a read that failed or saw the end of the stream. -/
  | readError (index : Nat)
  /-- Asio reads the buffer of an outstanding write; `junk` is what it finds if
  the storage is gone. -/
  | transmit (index : Nat) (junk : Bytes)
  /-- `handle_write` runs for a completed write. -/
  | writeDone (index : Nat) (isOpen : Bool)
  | writeError (index : Nat)

/-- What the storage of a write holds now, if it still exists. -/
def storageContents (state : State) (write : PendingWrite) : Option Bytes :=
  match write.storage with
  | .errorResponse => none
  | .currentResponse assignment =>
      if state.deleted = false ∧ assignment = state.assignments then some state.currentResponse
      else none

def fill (data chunk : Bytes) : Bytes := chunk ++ data.drop chunk.length

def countEscape (outcome : State × Option NumberError) : State :=
  { outcome.1 with escaped := outcome.1.escaped + if outcome.2.isSome then 1 else 0 }

/-- One step of a session that has not been deleted. A handler that is called
on a deleted session has no defined behaviour, so runs end there. -/
def step (server : Server) (state : State) (event : Event) : Option State :=
  if state.deleted then none
  else match event with
    | .arrive index chunk =>
        if state.reads[index]? = some none ∧ 0 < chunk.length ∧ chunk.length ≤ maxLength then
          some { state with
            data := fill state.data chunk
            reads := state.reads.set index (some chunk)
            received := state.received ++ chunk }
        else none
    | .readDone index =>
        match state.reads[index]? with
        | some (some chunk) =>
            some (countEscape
              (handleRead server { state with reads := state.reads.eraseIdx index } false
                chunk.length))
        | _ => none
    | .readError index =>
        match state.reads[index]? with
        | some none =>
            some (countEscape
              (handleRead server { state with reads := state.reads.eraseIdx index } true 0))
        | _ => none
    | .transmit index junk =>
        match state.writes[index]? with
        | some write =>
            if write.sent then none
            else some { state with
              wire := state.wire ++ [(storageContents state write).getD junk]
              writes := state.writes.set index { write with sent := true } }
        | none => none
    | .writeDone index isOpen =>
        match state.writes[index]? with
        | some write =>
            if write.sent then
              let handled := handleWrite { state with writes := state.writes.eraseIdx index }
                false isOpen
              some { handled with
                writesDone := handled.writesDone + if isOpen then 1 else 0 }
            else none
        | none => none
    | .writeError index =>
        match state.writes[index]? with
        | some _ =>
            some (handleWrite { state with writes := state.writes.eraseIdx index } true true)
        | none => none

end RestfulWebserver.Session
