import RestfulWebserver.Session.Machine

/-!
# What one call of `handle_read` does

The loop is replaced by one record update: given the batch of requests that the
buffer holds, every member of the session and every outstanding operation after
the call is known. The results about whole runs use only this.
-/

namespace RestfulWebserver.Session

open RestfulWebserver.Library RestfulWebserver.Http

def keptResponse (server : Server) (count : Nat) (fullRequest : Bytes) : Response :=
  let request := parseRequest fullRequest
  ⟨some request, (setConnection (dispatch server count request) false).toString, false⟩

/-- The responses to requests that keep the connection, numbered from `count`. -/
def keptResponses (server : Server) : Nat → List Bytes → List Response
  | _, [] => []
  | count, fullRequest :: later =>
      keptResponse server count fullRequest :: keptResponses server (count + 1) later

def closingResponse (server : Server) (count : Nat) (fullRequest : Bytes) : Response :=
  let request := parseRequest fullRequest
  if malformed request then ⟨none, badRequestResponse.toString, true⟩
  else if request.version ≠ httpVersion then ⟨none, badRequestResponse.toString, true⟩
  else ⟨some request, (setConnection (dispatch server count request) true).toString, true⟩

def exitResponses (server : Server) (count : Nat) : Exit → List Response
  | .waiting => []
  | .tooLarge => [⟨none, payloadTooLargeResponse.toString, true⟩]
  | .closing fullRequest => [closingResponse server count fullRequest]
  | .threw _ => []

def batchResponses (server : Server) (count : Nat) (taken : Batch) : List Response :=
  keptResponses server count taken.kept ++
    exitResponses server (count + taken.kept.length) taken.exit

def pendingWrites : Nat → List Response → List PendingWrite
  | _, [] => []
  | assignments, response :: later =>
      ⟨response.text, .currentResponse (assignments + 1), false⟩ ::
        pendingWrites (assignments + 1) later

def exitReads : Exit → List (Option Bytes)
  | .waiting => [none]
  | _ => []

def Exit.error : Exit → Option NumberError
  | .threw error => some error
  | _ => none

def writeResponses (state : State) (answers : List Response) : State :=
  { state with
    currentResponse := answers.foldl (fun _ response => response.text) state.currentResponse
    assignments := state.assignments + answers.length
    writes := state.writes ++ pendingWrites state.assignments answers
    responses := state.responses ++ answers }

def afterBatch (server : Server) (state : State) (taken : Batch) : State :=
  { writeResponses state (batchResponses server state.responses.length taken) with
    requestBuffer := taken.rest
    requests := state.requests ++ taken.extracted
    reads := state.reads ++ exitReads taken.exit
    readsStarted := state.readsStarted + (exitReads taken.exit).length }

theorem kept_responses_length (server : Server) (count : Nat) (fulls : List Bytes) :
    (keptResponses server count fulls).length = fulls.length := by
  induction fulls generalizing count with
  | nil => rfl
  | cons full fulls ih => simp only [keptResponses, List.length_cons, ih]

theorem pending_writes_length (assignments : Nat) (answers : List Response) :
    (pendingWrites assignments answers).length = answers.length := by
  induction answers generalizing assignments with
  | nil => rfl
  | cons response later ih => simp only [pendingWrites, List.length_cons, ih]

theorem write_responses_nil (state : State) : writeResponses state [] = state := by
  simp [writeResponses, pendingWrites]

theorem respond_eq_write_responses (state : State) (request : Option HttpRequest) (text : Bytes)
    (close : Bool) : respond state request text close =
      writeResponses state [⟨request, text, close⟩] := by
  simp [writeResponses, respond, pendingWrites]

theorem batch_responses_cons (server : Server) (count : Nat) (full : Bytes) (taken : Batch) :
    batchResponses server count ⟨full :: taken.kept, taken.exit, taken.rest⟩ =
      keptResponse server count full :: batchResponses server (count + 1) taken := by
  have number : count + (taken.kept.length + 1) = count + 1 + taken.kept.length := by omega
  simp only [batchResponses, keptResponses, List.length_cons, List.cons_append, number]

theorem answer_of_kept (server : Server) (state : State) (full : Bytes)
    (keeps : endsConnection (parseRequest full) = false) :
    answer server state (parseRequest full) =
      (writeResponses state [keptResponse server state.responses.length full], false) := by
  simp only [endsConnection, Bool.or_eq_false_iff, decide_eq_false_iff_not, not_not] at keeps
  obtain ⟨⟨wellFormed, version⟩, keepAlive⟩ := keeps
  simp only [answer, wellFormed, version, keepAlive, respond_eq_write_responses, keptResponse]
  simp

theorem answer_of_closing (server : Server) (state : State) (full : Bytes)
    (ends : endsConnection (parseRequest full) = true) :
    answer server state (parseRequest full) =
      (writeResponses state [closingResponse server state.responses.length full], true) := by
  by_cases wellFormed : malformed (parseRequest full) = true
  · simp [answer, closingResponse, wellFormed, respond_eq_write_responses]
  · by_cases version : (parseRequest full).version = httpVersion
    · have close : closeConnection (parseRequest full) = true := by
        simpa [endsConnection, wellFormed, version] using ends
      simp [answer, closingResponse, wellFormed, version, close, respond_eq_write_responses]
    · simp [answer, closingResponse, wellFormed, version, respond_eq_write_responses]

section LoopEquations

variable {server : Server} {state : State}

theorem read_loop_threw {error : NumberError}
    (found : nextFrame state.requestBuffer = .error error) :
    readLoop server state = (state, some error) := by
  rw [readLoop]
  split <;> simp_all

theorem read_loop_incomplete (found : nextFrame state.requestBuffer = .ok .incomplete) :
    readLoop server state = (startRead state, none) := by
  rw [readLoop]
  split <;> simp_all

theorem read_loop_too_large (found : nextFrame state.requestBuffer = .ok .tooLarge) :
    readLoop server state = (respond state none payloadTooLargeResponse.toString true, none) := by
  rw [readLoop]
  split <;> simp_all

theorem read_loop_complete {size : Nat}
    (found : nextFrame state.requestBuffer = .ok (.complete size)) :
    readLoop server state =
      if (answer server (extract state size)
          (parseRequest (state.requestBuffer.take size))).2 then
        ((answer server (extract state size)
          (parseRequest (state.requestBuffer.take size))).1, none)
      else readLoop server (answer server (extract state size)
        (parseRequest (state.requestBuffer.take size))).1 := by
  rw [readLoop]
  split <;> simp_all

end LoopEquations

/-- The loop does what its batch says: the one place where it is unrolled. -/
theorem read_loop_eq (server : Server) (state : State) :
    readLoop server state =
      (afterBatch server state (batch state.requestBuffer),
        (batch state.requestBuffer).exit.error) := by
  generalize buffered : state.requestBuffer = buffer
  induction buffer using batch_induction generalizing state with
  | threw buffer error found =>
      rw [read_loop_threw (by rw [buffered]; exact found), batch_threw found]
      subst buffered
      simp [afterBatch, batchResponses, keptResponses, exitResponses, exitReads,
        Batch.extracted, Exit.extracted, Exit.error, write_responses_nil]
  | incomplete buffer found =>
      rw [read_loop_incomplete (by rw [buffered]; exact found), batch_incomplete found]
      subst buffered
      simp [afterBatch, batchResponses, keptResponses, exitResponses, exitReads,
        Batch.extracted, Exit.extracted, Exit.error, write_responses_nil, startRead]
  | tooLarge buffer found =>
      rw [read_loop_too_large (by rw [buffered]; exact found), batch_too_large found]
      subst buffered
      simp [afterBatch, batchResponses, keptResponses, exitResponses, exitReads,
        Batch.extracted, Exit.extracted, Exit.error, respond_eq_write_responses, writeResponses]
  | closing buffer size found ends =>
      subst buffered
      rw [read_loop_complete found, answer_of_closing server _ _ ends, batch_closing found ends]
      simp [afterBatch, batchResponses, keptResponses, exitResponses, exitReads,
        Batch.extracted, Exit.extracted, Exit.error, extract, writeResponses]
  | kept buffer size found keeps ih =>
      subst buffered
      rw [read_loop_complete found, answer_of_kept server _ _ keeps, batch_kept found keeps]
      simp only [Bool.false_eq_true, if_false]
      rw [ih _ rfl]
      simp only [afterBatch, batch_responses_cons]
      -- the responses of the later turns are numbered from the one just written
      have number : (writeResponses (extract state size)
          [keptResponse server (extract state size).responses.length
            (state.requestBuffer.take size)]).responses.length = state.responses.length + 1 := by
        simp [writeResponses, extract]
      rw [number]
      generalize batchResponses server (state.responses.length + 1)
        (batch (state.requestBuffer.drop size)) = later
      simp [writeResponses, extract, pendingWrites, Batch.extracted, Nat.add_assoc,
        Nat.add_comm 1]

def appended (state : State) (index : Nat) (chunk : Bytes) : State :=
  { state with
    reads := state.reads.eraseIdx index
    requestBuffer := state.requestBuffer ++ state.data.take chunk.length }

/-- Everything a step can do, guards included. -/
inductive Effect (server : Server) (state : State) : Event → State → Prop where
  | arrive (index : Nat) (chunk : Bytes) (waits : state.reads[index]? = some none)
      (positive : 0 < chunk.length) (bounded : chunk.length ≤ maxLength) :
      Effect server state (.arrive index chunk)
        { state with
          data := fill state.data chunk
          reads := state.reads.set index (some chunk)
          received := state.received ++ chunk }
  | oversize (index : Nat) (chunk : Bytes) (ready : state.reads[index]? = some (some chunk))
      (exceeds : maxRequestSize < state.requestBuffer.length + chunk.length) :
      Effect server state (.readDone index)
        (respondOversize { state with reads := state.reads.eraseIdx index })
  | batch (index : Nat) (chunk : Bytes) (ready : state.reads[index]? = some (some chunk))
      (fits : state.requestBuffer.length + chunk.length ≤ maxRequestSize)
      (taken : Batch) (cut : taken = batch (appended state index chunk).requestBuffer) :
      Effect server state (.readDone index)
        { afterBatch server (appended state index chunk) taken with
          escaped := state.escaped + taken.exit.error.toList.length }
  | readError (index : Nat) (waits : state.reads[index]? = some none) :
      Effect server state (.readError index)
        (safeDelete { state with reads := state.reads.eraseIdx index })
  | transmit (index : Nat) (junk : Bytes) (write : PendingWrite)
      (pending : state.writes[index]? = some write) (unsent : write.sent = false) :
      Effect server state (.transmit index junk)
        { state with
          wire := state.wire ++ [(storageContents state write).getD junk]
          writes := state.writes.set index { write with sent := true } }
  | writeOpen (index : Nat) (write : PendingWrite)
      (pending : state.writes[index]? = some write) (sent : write.sent = true) :
      Effect server state (.writeDone index true)
        { startRead { state with writes := state.writes.eraseIdx index } with
          writesDone := state.writesDone + 1 }
  | writeClosed (index : Nat) (write : PendingWrite)
      (pending : state.writes[index]? = some write) (sent : write.sent = true) :
      Effect server state (.writeDone index false)
        (safeDelete { state with writes := state.writes.eraseIdx index })
  | writeError (index : Nat) (write : PendingWrite)
      (pending : state.writes[index]? = some write) :
      Effect server state (.writeError index)
        (safeDelete { state with writes := state.writes.eraseIdx index })

theorem read_done_effect {server : Server} {state : State} {index : Nat} {chunk : Bytes}
    (ready : state.reads[index]? = some (some chunk)) :
    Effect server state (.readDone index)
      (countEscape (handleRead server { state with reads := state.reads.eraseIdx index } false
        chunk.length)) := by
  by_cases exceeds : maxRequestSize < state.requestBuffer.length + chunk.length
  · have same : countEscape (handleRead server
        { state with reads := state.reads.eraseIdx index } false chunk.length) =
        respondOversize { state with reads := state.reads.eraseIdx index } := by
      simp [handleRead, exceeds, countEscape]
    rw [same]
    exact .oversize index chunk ready exceeds
  · have same : countEscape (handleRead server
        { state with reads := state.reads.eraseIdx index } false chunk.length) =
        { afterBatch server (appended state index chunk)
            (RestfulWebserver.Session.batch (appended state index chunk).requestBuffer) with
          escaped := state.escaped + (RestfulWebserver.Session.batch
            (appended state index chunk).requestBuffer).exit.error.toList.length } := by
      simp only [handleRead, if_neg exceeds, Bool.false_eq_true, if_false, read_loop_eq, countEscape,
        appended, afterBatch, writeResponses]
      cases (RestfulWebserver.Session.batch
        (state.requestBuffer ++ state.data.take chunk.length)).exit.error <;> rfl
    rw [same]
    exact .batch index chunk ready (by omega) _ rfl

theorem step_effect {server : Server} {state next : State} {event : Event}
    (stepped : step server state event = some next) :
    state.deleted = false ∧ Effect server state event next := by
  unfold step at stepped
  split at stepped
  · cases stepped
  · rename_i live
    refine ⟨by simpa using live, ?_⟩
    cases event with
    | arrive index chunk =>
        simp only at stepped
        split at stepped
        · rename_i guard
          cases stepped
          exact .arrive index chunk guard.1 guard.2.1 guard.2.2
        · cases stepped
    | readDone index =>
        simp only at stepped
        split at stepped
        · rename_i chunk ready
          cases stepped
          exact read_done_effect ready
        · cases stepped
    | readError index =>
        simp only at stepped
        split at stepped
        · rename_i waits
          cases stepped
          exact .readError index waits
        · cases stepped
    | transmit index junk =>
        simp only at stepped
        split at stepped
        · rename_i write pending
          cases sent : write.sent with
          | true => simp [sent] at stepped
          | false =>
              simp only [sent, Bool.false_eq_true, if_false] at stepped
              cases stepped
              exact .transmit index junk write pending sent
        · cases stepped
    | writeDone index isOpen =>
        simp only at stepped
        split at stepped
        · rename_i write pending
          cases sent : write.sent with
          | false => simp [sent] at stepped
          | true =>
              simp only [sent, if_true] at stepped
              cases stepped
              cases isOpen with
              | true => exact .writeOpen index write pending sent
              | false => exact .writeClosed index write pending sent
        · cases stepped
    | writeError index =>
        simp only at stepped
        split at stepped
        · rename_i write pending
          cases stepped
          exact .writeError index write pending
        · cases stepped

end RestfulWebserver.Session
