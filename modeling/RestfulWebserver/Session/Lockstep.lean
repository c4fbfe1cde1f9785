import RestfulWebserver.Library.Progress
import RestfulWebserver.Session.Buffers
import RestfulWebserver.Session.SizeLimit
import RestfulWebserver.Session.Splicing

/-!
# A client that waits

The session together with a client that begins a request only when it has the
responses to all requests before, and writes it in one piece, or in pieces of which
each arrives after the one before has been handled. Completions come in any order
besides. Nothing overlaps then and every request is answered, but each answer leaves
one read more outstanding.
-/

namespace RestfulWebserver.Session

open RestfulWebserver.Library RestfulWebserver.Http

structure Lockstep where
  session : State
  /-- What is still to be written of the request begun last. -/
  missing : Bytes
  begun : List KeepAliveRequest
  left : List KeepAliveRequest

namespace Lockstep

inductive Event where
  /-- The client begins its next request. -/
  | ask
  /-- So many bytes of the request arrive for a read. -/
  | send (index size : Nat)
  | handleRead (index : Nat)
  | transmit (index : Nat) (junk : Bytes)
  | handleWrite (index : Nat)

def start (requests : List KeepAliveRequest) : Lockstep where
  session := Session.start
  missing := []
  begun := []
  left := requests

def withSession (lockstep : Lockstep) (session : State) : Lockstep :=
  { lockstep with session := session }

/-- The client waits for its responses; the network fails nothing. -/
def step (server : Server) (lockstep : Lockstep) : Event → Option Lockstep
  | .ask =>
      match lockstep.left with
      | [] => none
      | request :: later =>
          if lockstep.missing = [] ∧ lockstep.session.wire.length = lockstep.begun.length then
            some ⟨lockstep.session, request.bytes, lockstep.begun ++ [request], later⟩
          else none
  | .send index size =>
      if size ≤ lockstep.missing.length then
        (stepInTurn server lockstep.session (.arrive index (lockstep.missing.take size))).map
          fun next => ⟨next, lockstep.missing.drop size, lockstep.begun, lockstep.left⟩
      else none
  | .handleRead index =>
      (stepInTurn server lockstep.session (.readDone index)).map lockstep.withSession
  | .transmit index junk =>
      (stepInTurn server lockstep.session (.transmit index junk)).map lockstep.withSession
  | .handleWrite index =>
      (stepInTurn server lockstep.session (.writeDone index true)).map lockstep.withSession

end Lockstep

/-! ## Writes that are not on the wire -/

def unsent (state : State) : List PendingWrite := state.writes.filter fun write => !write.sent

section Unsent

variable {writes : List PendingWrite} {index : Nat} {write : PendingWrite}

theorem unsent_erase (pending : writes[index]? = some write) (sent : write.sent = true) :
    (writes.eraseIdx index).filter (fun write => !write.sent) =
      writes.filter fun write => !write.sent := by
  rw [List.eraseIdx_eq_take_drop_succ]
  conv => rhs; rw [split_at_index pending]
  rw [List.filter_append, List.filter_append, List.filter_cons_of_neg (by simp [sent])]

theorem unsent_set (pending : writes[index]? = some write) (waits : write.sent = false)
    {only : PendingWrite} (single : writes.filter (fun write => !write.sent) = [only]) :
    only = write ∧
      (writes.set index { write with sent := true }).filter (fun write => !write.sent) = [] := by
  obtain ⟨inside, _⟩ := List.getElem?_eq_some_iff.mp pending
  rw [split_at_index pending, List.filter_append, List.filter_cons_of_pos (by simp [waits])]
    at single
  have few := congrArg List.length single
  simp only [List.length_append, List.length_cons, List.length_nil] at few
  have before : (writes.take index).filter (fun write => !write.sent) = [] :=
    List.length_eq_zero_iff.mp (by omega)
  have behind : (writes.drop (index + 1)).filter (fun write => !write.sent) = [] :=
    List.length_eq_zero_iff.mp (by omega)
  rw [before, behind] at single
  rw [List.set_eq_take_append_cons_drop, if_pos inside, List.filter_append,
    List.filter_cons_of_neg (by simp), before, behind]
  exact ⟨(List.cons.inj single).1.symm, rfl⟩

theorem unsent_of_pending (pending : writes[index]? = some write) (waits : write.sent = false) :
    writes.filter (fun write => !write.sent) ≠ [] := by
  intro nothing
  have all := List.filter_eq_nil_iff.mp nothing write (List.mem_of_getElem? pending)
  simp [waits] at all

end Unsent

/-! ## One request in pieces -/

section Pieces

variable {request : KeepAliveRequest}

theorem batch_piece (small : request.bytes.length ≤ maxRequestSize) {received missing : Bytes}
    (cut : request.bytes = received ++ missing) (more : missing ≠ []) :
    batch received = ⟨[], .waiting, received⟩ :=
  batch_incomplete (next_frame_unfinished request (body_within_limit small) cut more)

theorem batch_request (small : request.bytes.length ≤ maxRequestSize) :
    batch request.bytes = ⟨[request.bytes], .waiting, []⟩ := by
  have found := next_frame_request request (body_within_limit small) []
  rw [List.append_nil] at found
  have whole : request.bytes.take request.bytes.length = request.bytes := List.take_length
  have nothingLeft : batch [] = ⟨[], .waiting, []⟩ := batch_incomplete rfl
  rw [batch_kept found (by rw [whole]; exact request_keeps_connection request), whole,
    List.drop_length, nothingLeft]

end Pieces

/-! ## The stages of a request -/

def answersTo (server : Server) (requests : List KeepAliveRequest) : List Response :=
  keptResponses server 0 (allBytes requests)

theorem answers_to_length (server : Server) (requests : List KeepAliveRequest) :
    (answersTo server requests).length = requests.length := by
  rw [answersTo, kept_responses_length, allBytes, List.length_map]

theorem answers_to_snoc (server : Server) (requests : List KeepAliveRequest)
    (request : KeepAliveRequest) :
    answersTo server (requests ++ [request]) =
      answersTo server requests ++ [keptResponse server requests.length request.bytes] := by
  simp only [answersTo, allBytes, List.map_append, kept_responses_append, List.length_map,
    Nat.zero_add]
  rfl

namespace Lockstep

inductive Stage (server : Server) (lockstep : Lockstep) : Prop where
  | resting (nothing : lockstep.missing = []) (buffer : lockstep.session.requestBuffer = [])
      (free : held lockstep.session = [])
      (answered : lockstep.session.responses = answersTo server lockstep.begun)
      (written : unsent lockstep.session = [])
      (wire : lockstep.session.wire = texts lockstep.session)
  /-- Some of the request is in the buffer, some in `data_` and some at the client. -/
  | asking (before : List KeepAliveRequest) (request : KeepAliveRequest)
      (last : lockstep.begun = before ++ [request])
      (cut : request.bytes = lockstep.session.requestBuffer ++
        ((held lockstep.session).flatten ++ lockstep.missing))
      (few : (held lockstep.session).length ≤ 1)
      (intact : ∀ chunk ∈ held lockstep.session,
        lockstep.session.data.take chunk.length = chunk)
      (unfinished : held lockstep.session ≠ [] ∨ lockstep.missing ≠ [])
      (answered : lockstep.session.responses = answersTo server before)
      (written : unsent lockstep.session = [])
      (wire : lockstep.session.wire = texts lockstep.session)
  | answering (write : PendingWrite) (nothing : lockstep.missing = [])
      (buffer : lockstep.session.requestBuffer = []) (free : held lockstep.session = [])
      (answered : lockstep.session.responses = answersTo server lockstep.begun)
      (only : unsent lockstep.session = [write])
      (stored : storageContents lockstep.session write = some write.text)
      (wire : lockstep.session.wire ++ [write.text] = texts lockstep.session)

structure InStep (server : Server) (requests : List KeepAliveRequest) (lockstep : Lockstep) :
    Prop where
  live : lockstep.session.deleted = false
  calm : lockstep.session.escaped = 0
  reads : lockstep.session.reads.length = 1 + lockstep.session.writesDone
  writes : lockstep.session.responses.length =
    lockstep.session.writesDone + lockstep.session.writes.length
  stream : requests = lockstep.begun ++ lockstep.left
  stage : Stage server lockstep

/-- What the session has still to do for the requests that were begun. -/
def owed (begun : Nat) (session : State) : Nat :=
  (held session).length + 2 * (begun - session.responses.length) + session.writes.length +
    (unsent session).length

/-- What is still to be done: two steps at most for each byte, and for each request
its beginning, the transmission of its response and the end of that write. -/
def remaining (lockstep : Lockstep) : Nat :=
  2 * (allBytes lockstep.left).flatten.length + 3 * lockstep.left.length +
    2 * lockstep.missing.length + owed lockstep.begun.length lockstep.session

theorem remaining_with_session {lockstep : Lockstep} {next : State}
    (lower : owed lockstep.begun.length next < owed lockstep.begun.length lockstep.session) :
    remaining (lockstep.withSession next) < remaining lockstep :=
  Nat.add_lt_add_left lower _

inductive Move (server : Server) (lockstep : Lockstep) : Lockstep → Prop where
  | ask (request : KeepAliveRequest) (later : List KeepAliveRequest)
      (first : lockstep.left = request :: later) (nothing : lockstep.missing = [])
      (heard : lockstep.session.wire.length = lockstep.begun.length) :
      Move server lockstep
        ⟨lockstep.session, request.bytes, lockstep.begun ++ [request], later⟩
  | send (index size : Nat) (next : State) (free : held lockstep.session = [])
      (stepped : Session.step server lockstep.session
        (.arrive index (lockstep.missing.take size)) = some next) :
      Move server lockstep ⟨next, lockstep.missing.drop size, lockstep.begun, lockstep.left⟩
  | read (index : Nat) (next : State)
      (stepped : Session.step server lockstep.session (.readDone index) = some next) :
      Move server lockstep (lockstep.withSession next)
  | transmit (index : Nat) (junk : Bytes) (next : State)
      (stepped : Session.step server lockstep.session (.transmit index junk) = some next) :
      Move server lockstep (lockstep.withSession next)
  | write (index : Nat) (next : State)
      (stepped : Session.step server lockstep.session (.writeDone index true) = some next) :
      Move server lockstep (lockstep.withSession next)

theorem move_of_step {server : Server} {lockstep next : Lockstep} {event : Event}
    (stepped : step server lockstep event = some next) : Move server lockstep next := by
  cases event with
  | ask =>
      simp only [step] at stepped
      split at stepped
      · cases stepped
      · rename_i request later first
        split_ifs at stepped with may
        cases stepped
        exact .ask request later first may.1 may.2
  | send index size =>
      simp only [step, stepInTurn] at stepped
      split_ifs at stepped with inside free
      · obtain ⟨session, arrived, same⟩ := Option.map_eq_some_iff.mp stepped
        rw [← same]
        exact .send index size session free arrived
      · cases stepped
  | handleRead index =>
      obtain ⟨session, handled, same⟩ := Option.map_eq_some_iff.mp stepped
      rw [← same]
      exact .read index session handled
  | transmit index junk =>
      obtain ⟨session, transmitted, same⟩ := Option.map_eq_some_iff.mp stepped
      rw [← same]
      exact .transmit index junk session transmitted
  | handleWrite index =>
      obtain ⟨session, handled, same⟩ := Option.map_eq_some_iff.mp stepped
      rw [← same]
      exact .write index session handled

/-! ## What one move does -/

variable {server : Server} {requests : List KeepAliveRequest} {lockstep : Lockstep}

theorem asked_in_step (inStep : InStep server requests lockstep) {request : KeepAliveRequest}
    {later : List KeepAliveRequest} (first : lockstep.left = request :: later)
    (nothing : lockstep.missing = [])
    (heard : lockstep.session.wire.length = lockstep.begun.length) :
    let next : Lockstep :=
      ⟨lockstep.session, request.bytes, lockstep.begun ++ [request], later⟩
    InStep server requests next ∧ remaining next < remaining lockstep := by
  intro next
  have content : request.bytes ≠ [] := by
    simp [KeepAliveRequest.bytes, KeepAliveRequest.head, crlf]
  cases inStep.stage with
  | resting _ buffer free answered written wire =>
      constructor
      · constructor
        · exact inStep.live
        · exact inStep.calm
        · exact inStep.reads
        · exact inStep.writes
        · rw [inStep.stream, first]
          simp [next]
        · refine @Stage.asking server next lockstep.begun request rfl ?_ ?_ ?_ (Or.inr content)
            answered written wire
          · simp [next, buffer, free]
          · simp [next, free]
          · simp [next, free]
      · have count := congrArg List.length answered
        rw [answers_to_length] at count
        simp only [remaining, owed, next, first, nothing, count, allBytes, List.map_cons,
          List.flatten_cons, List.length_append, List.length_cons, List.length_nil]
        omega
  | asking before other last cut few intact unfinished answered written wire =>
      have sent := congrArg List.length wire
      have asked := congrArg List.length last
      simp only [texts, List.length_map, answered, answers_to_length] at sent
      simp only [List.length_append, List.length_singleton] at asked
      omega
  | answering write _ buffer free answered only stored wire =>
      have sent := congrArg List.length wire
      simp only [texts, List.length_append, List.length_singleton, List.length_map, answered,
        answers_to_length] at sent
      omega

theorem sent_in_step (inStep : InStep server requests lockstep) {index size : Nat} {next : State}
    (free : held lockstep.session = [])
    (stepped : Session.step server lockstep.session
      (.arrive index (lockstep.missing.take size)) = some next) :
    let moved : Lockstep := ⟨next, lockstep.missing.drop size, lockstep.begun, lockstep.left⟩
    InStep server requests moved ∧ remaining moved < remaining lockstep := by
  intro moved
  obtain ⟨live, effect⟩ := step_effect stepped
  cases effect with
  | arrive _ _ waits positive bounded =>
      have arrived := held_set (lockstep.missing.take size) waits free
      have someMissing : lockstep.missing ≠ [] := by
        intro nothing
        simp [nothing] at positive
      cases inStep.stage with
      | resting nothing => exact absurd nothing someMissing
      | answering write nothing => exact absurd nothing someMissing
      | asking before request last cut few intact unfinished answered written wire =>
          constructor
          · constructor
            · exact inStep.live
            · exact inStep.calm
            · simpa [moved] using inStep.reads
            · exact inStep.writes
            · exact inStep.stream
            · refine @Stage.asking server moved before request last ?_ ?_ ?_ (Or.inl ?_)
                answered written wire
              · rw [free] at cut
                simpa [moved, held, arrived] using cut
              · simp [moved, held, arrived]
              · simp [moved, held, arrived, fill]
              · simp [moved, held, arrived]
          · have taken := List.length_take_le size lockstep.missing
            simp only [remaining, owed, moved, held, arrived, List.length_drop,
              List.length_singleton, unsent]
            rw [List.length_take] at positive
            omega

structure Piece (server : Server) (lockstep : Lockstep) (index : Nat) (chunk : Bytes)
    (before : List KeepAliveRequest) (request : KeepAliveRequest) : Prop where
  last : lockstep.begun = before ++ [request]
  cut : request.bytes = lockstep.session.requestBuffer ++ chunk ++ lockstep.missing
  appended : (appended lockstep.session index chunk).requestBuffer =
    lockstep.session.requestBuffer ++ chunk
  single : held lockstep.session = [chunk]
  others : (lockstep.session.reads.eraseIdx index).reduceOption = []
  answered : lockstep.session.responses = answersTo server before
  written : unsent lockstep.session = []
  wire : lockstep.session.wire = texts lockstep.session

theorem piece_of_ready (inStep : InStep server requests lockstep) {index : Nat} {chunk : Bytes}
    (ready : lockstep.session.reads[index]? = some (some chunk)) :
    ∃ before request, Piece server lockstep index chunk before request := by
  have holds : held lockstep.session ≠ [] := by
    intro free
    have only := (held_of_single ready (by rw [← held, free]; simp)).1
    rw [← held, free] at only
    cases only
  cases inStep.stage with
  | resting nothing buffer free => exact absurd free holds
  | answering write nothing buffer free => exact absurd free holds
  | asking before request last cut few intact unfinished answered written wire =>
      obtain ⟨only, others⟩ := held_of_single ready few
      rw [← held] at only
      refine ⟨before, request, last, ?_, ?_, only, others, answered, written, wire⟩
      · rw [only] at cut
        simpa using cut
      · rw [appended, intact chunk (by rw [only]; exact List.mem_singleton_self chunk)]

theorem piece_among (inStep : InStep server requests lockstep) {index : Nat} {chunk : Bytes}
    {before : List KeepAliveRequest} {request : KeepAliveRequest}
    (piece : Piece server lockstep index chunk before request) : request ∈ requests := by
  rw [inStep.stream, piece.last]
  simp

theorem piece_in_step (inStep : InStep server requests lockstep)
    (small : ∀ request ∈ requests, request.bytes.length ≤ maxRequestSize) {index : Nat}
    {chunk : Bytes} {before : List KeepAliveRequest} {request : KeepAliveRequest}
    (ready : lockstep.session.reads[index]? = some (some chunk))
    (piece : Piece server lockstep index chunk before request) (more : lockstep.missing ≠ [])
    {taken : Batch}
    (cut : taken = batch (appended lockstep.session index chunk).requestBuffer) :
    let next := lockstep.withSession
      { afterBatch server (appended lockstep.session index chunk) taken with
        escaped := lockstep.session.escaped + taken.exit.error.toList.length }
    InStep server requests next ∧ remaining next < remaining lockstep := by
  intro next
  have fits := small request (piece_among inStep piece)
  rw [piece.appended, batch_piece fits piece.cut more] at cut
  subst cut
  have erased := length_erase_of_some ready
  have noneLeft : (lockstep.session.reads.eraseIdx index ++ [none]).reduceOption = [] := by
    rw [List.reduceOption_append, piece.others]
    rfl
  have sameWrites : next.session.writes = lockstep.session.writes := List.append_nil _
  have sameResponses : next.session.responses = lockstep.session.responses := List.append_nil _
  have free : held next.session = [] := noneLeft
  have written : unsent next.session = [] := by rw [unsent, sameWrites]; exact piece.written
  constructor
  · constructor
    · exact inStep.live
    · exact inStep.calm
    · have count := inStep.reads
      change (lockstep.session.reads.eraseIdx index ++ [none]).length = _
      rw [List.length_append, List.length_singleton, erased]
      exact count
    · rw [sameWrites, sameResponses]
      exact inStep.writes
    · exact inStep.stream
    · refine @Stage.asking server next before request piece.last ?_ ?_ ?_ (Or.inr more)
        (sameResponses.trans piece.answered) written ?_
      · rw [free]
        exact piece.cut
      · rw [free]
        exact Nat.zero_le 1
      · rw [free]
        intro other member
        cases member
      · rw [texts, sameResponses]
        exact piece.wire
  · apply remaining_with_session
    change owed _ next.session < _
    rw [owed, owed, free, sameWrites, sameResponses, written, piece.single, piece.written,
      List.length_nil, List.length_singleton]
    omega

/-- The request is complete: its response takes the storage of no write that is
still to be sent. -/
theorem whole_in_step (inStep : InStep server requests lockstep)
    (small : ∀ request ∈ requests, request.bytes.length ≤ maxRequestSize) {index : Nat}
    {chunk : Bytes} {before : List KeepAliveRequest} {request : KeepAliveRequest}
    (ready : lockstep.session.reads[index]? = some (some chunk))
    (piece : Piece server lockstep index chunk before request) (nothing : lockstep.missing = [])
    {taken : Batch}
    (cut : taken = batch (appended lockstep.session index chunk).requestBuffer) :
    let next := lockstep.withSession
      { afterBatch server (appended lockstep.session index chunk) taken with
        escaped := lockstep.session.escaped + taken.exit.error.toList.length }
    InStep server requests next ∧ remaining next < remaining lockstep := by
  intro next
  have fits := small request (piece_among inStep piece)
  have whole := piece.cut
  rw [nothing, List.append_nil] at whole
  rw [piece.appended, ← whole, batch_request fits] at cut
  subst cut
  have count := congrArg List.length piece.answered
  have begun := congrArg List.length piece.last
  rw [answers_to_length] at count
  rw [List.length_append, List.length_singleton] at begun
  have erased := length_erase_of_some ready
  have free : held next.session = [] := by
    change (lockstep.session.reads.eraseIdx index ++ [none]).reduceOption = []
    rw [List.reduceOption_append, piece.others]
    rfl
  let response := keptResponse server before.length request.bytes
  let write : PendingWrite :=
    ⟨response.text, .currentResponse (lockstep.session.assignments + 1), false⟩
  have responses : next.session.responses = lockstep.session.responses ++ [response] := by
    change lockstep.session.responses ++ [keptResponse server lockstep.session.responses.length
      request.bytes] = _
    rw [count]
  have writes : next.session.writes = lockstep.session.writes ++ [write] := by
    change lockstep.session.writes ++ [⟨(keptResponse server lockstep.session.responses.length
      request.bytes).text, .currentResponse (lockstep.session.assignments + 1), false⟩] = _
    rw [count]
  have only : unsent next.session = [write] := by
    rw [unsent, writes, List.filter_append]
    have none := piece.written
    rw [unsent] at none
    rw [none]
    rfl
  have stored : storageContents next.session write = some write.text := by
    have current : next.session.currentResponse = response.text := by
      change (keptResponse server lockstep.session.responses.length request.bytes).text = _
      rw [count]
    have live : next.session.deleted = false := inStep.live
    have latest : next.session.assignments = lockstep.session.assignments + 1 := rfl
    simp [storageContents, write, live, latest, current]
  have wire : next.session.wire ++ [write.text] = texts next.session := by
    rw [texts, responses, List.map_append]
    change lockstep.session.wire ++ _ = _
    rw [piece.wire]
    rfl
  constructor
  · constructor
    · exact inStep.live
    · exact inStep.calm
    · have reads := inStep.reads
      change (lockstep.session.reads.eraseIdx index ++ [none]).length = _
      rw [List.length_append, List.length_singleton, erased]
      exact reads
    · rw [writes, responses, List.length_append, List.length_append, inStep.writes]
      exact Nat.add_assoc _ _ _
    · exact inStep.stream
    · refine @Stage.answering server next write nothing rfl free ?_ only stored wire
      change next.session.responses = answersTo server lockstep.begun
      rw [responses, piece.last, answers_to_snoc, piece.answered]
  · apply remaining_with_session
    change owed _ next.session < _
    rw [owed, owed, free, writes, responses, only, piece.single, piece.written,
      List.length_append, List.length_append, List.length_nil, List.length_singleton,
      List.length_singleton, List.length_singleton]
    omega

theorem read_in_step (inStep : InStep server requests lockstep)
    (small : ∀ request ∈ requests, request.bytes.length ≤ maxRequestSize) {index : Nat}
    {next : State}
    (stepped : Session.step server lockstep.session (.readDone index) = some next) :
    InStep server requests (lockstep.withSession next) ∧
      remaining (lockstep.withSession next) < remaining lockstep := by
  obtain ⟨live, effect⟩ := step_effect stepped
  cases effect with
  | oversize _ chunk ready exceeds =>
      obtain ⟨before, request, piece⟩ := piece_of_ready inStep ready
      have bound := small request (piece_among inStep piece)
      rw [piece.cut] at bound
      simp only [List.length_append] at bound
      omega
  | batch _ chunk ready fits taken cut =>
      obtain ⟨before, request, piece⟩ := piece_of_ready inStep ready
      by_cases nothing : lockstep.missing = []
      · exact whole_in_step inStep small ready piece nothing cut
      · exact piece_in_step inStep small ready piece nothing cut

theorem transmitted_in_step (inStep : InStep server requests lockstep) {index : Nat}
    {junk : Bytes} {next : State}
    (stepped : Session.step server lockstep.session (.transmit index junk) = some next) :
    InStep server requests (lockstep.withSession next) ∧
      remaining (lockstep.withSession next) < remaining lockstep := by
  obtain ⟨live, effect⟩ := step_effect stepped
  cases effect with
  | transmit _ _ write pending waits =>
      have outstanding := unsent_of_pending pending waits
      cases inStep.stage with
      | resting nothing buffer free answered written => exact absurd written outstanding
      | asking before request last cut few intact unfinished answered written =>
          exact absurd written outstanding
      | answering single nothing buffer free answered only stored wire =>
          obtain ⟨same, written⟩ := unsent_set pending waits only
          subst same
          rw [stored]
          constructor
          · constructor
            · exact inStep.live
            · exact inStep.calm
            · exact inStep.reads
            · have count := inStep.writes
              change lockstep.session.responses.length =
                lockstep.session.writesDone + (List.set _ _ _).length
              rw [List.length_set]
              exact count
            · exact inStep.stream
            · exact Stage.resting nothing buffer free answered written wire
          · apply remaining_with_session
            rw [owed, owed, only]
            change _ + (List.set _ _ _).length + (List.filter _ (List.set _ _ _)).length < _
            rw [List.length_set, written]
            exact Nat.lt_succ_self _

theorem written_in_step (inStep : InStep server requests lockstep) {index : Nat} {next : State}
    (stepped : Session.step server lockstep.session (.writeDone index true) = some next) :
    InStep server requests (lockstep.withSession next) ∧
      remaining (lockstep.withSession next) < remaining lockstep := by
  obtain ⟨live, effect⟩ := step_effect stepped
  cases effect with
  | writeOpen _ write pending sent =>
      have sameUnsent := unsent_erase pending sent
      have erased := length_erase_of_some pending
      have sameHeld : (lockstep.session.reads ++ [none]).reduceOption =
          held lockstep.session := by
        rw [List.reduceOption_append, held]
        exact List.append_nil _
      constructor
      · constructor
        · exact inStep.live
        · exact inStep.calm
        · have count := inStep.reads
          change (lockstep.session.reads ++ [none]).length = _
          rw [List.length_append, List.length_singleton, count]
          exact Nat.add_assoc _ _ _
        · have count := inStep.writes
          change lockstep.session.responses.length =
            lockstep.session.writesDone + 1 + (lockstep.session.writes.eraseIdx index).length
          omega
        · exact inStep.stream
        · cases inStep.stage with
          | resting nothing buffer free answered written wire =>
              exact Stage.resting nothing buffer (sameHeld.trans free) answered
                (sameUnsent.trans written) wire
          | asking before request last cut few intact unfinished answered written wire =>
              rw [← sameHeld] at cut few intact unfinished
              exact Stage.asking before request last cut few intact unfinished answered
                (sameUnsent.trans written) wire
          | answering single nothing buffer free answered only stored wire =>
              exact Stage.answering single nothing buffer (sameHeld.trans free) answered
                (sameUnsent.trans only) stored wire
      · apply remaining_with_session
        rw [owed, owed]
        change (List.reduceOption (lockstep.session.reads ++ [none])).length +
          2 * (lockstep.begun.length - lockstep.session.responses.length) +
          (lockstep.session.writes.eraseIdx index).length +
          (List.filter _ (lockstep.session.writes.eraseIdx index)).length < _
        rw [sameHeld, sameUnsent, unsent]
        omega

theorem in_step_start (server : Server) (requests : List KeepAliveRequest) :
    InStep server requests (start requests) where
  live := rfl
  calm := rfl
  reads := rfl
  writes := rfl
  stream := rfl
  stage := .resting rfl rfl rfl rfl rfl rfl

theorem lockstep_descends (server : Server) {requests : List KeepAliveRequest}
    (small : ∀ request ∈ requests, request.bytes.length ≤ maxRequestSize) :
    Descends (step server) (InStep server requests) (Fewer remaining) := by
  intro lockstep event next inStep stepped
  cases move_of_step stepped with
  | ask request later first nothing heard => exact asked_in_step inStep first nothing heard
  | send index size session free arrived => exact sent_in_step inStep free arrived
  | read index session handled => exact read_in_step inStep small handled
  | transmit index junk session transmitted => exact transmitted_in_step inStep transmitted
  | write index session handled => exact written_in_step inStep handled

/-! ## Until everything is answered -/

structure Finished (lockstep : Lockstep) : Prop where
  left : lockstep.left = []
  missing : lockstep.missing = []
  handled : held lockstep.session = []
  written : lockstep.session.writes = []

theorem waiting_read (inStep : InStep server requests lockstep)
    (free : held lockstep.session = []) : lockstep.session.reads[0]? = some none := by
  have count := inStep.reads
  cases reads : lockstep.session.reads with
  | nil =>
      rw [reads, List.length_nil] at count
      omega
  | cons read others =>
      rw [held, reads] at free
      cases read with
      | none => rfl
      | some chunk => cases free

theorem held_ready (holds : held lockstep.session ≠ []) :
    ∃ (index : Nat) (chunk : Bytes), lockstep.session.reads[index]? = some (some chunk) := by
  obtain ⟨chunk, member⟩ := List.exists_mem_of_ne_nil _ holds
  have inReads := List.reduceOption_mem_iff.mp member
  obtain ⟨index, ready⟩ := List.mem_iff_getElem?.mp inReads
  exact ⟨index, chunk, ready⟩

theorem asking_never_stuck (inStep : InStep server requests lockstep)
    (unfinished : held lockstep.session ≠ [] ∨ lockstep.missing ≠ []) :
    ∃ event next, step server lockstep event = some next := by
  have live := inStep.live
  by_cases free : held lockstep.session = []
  · have waits := waiting_read inStep free
    obtain ⟨byte, rest, more⟩ := List.exists_cons_of_ne_nil
      (unfinished.resolve_left (not_not.mpr free))
    have fits : 1 ≤ maxLength := by decide
    refine ⟨.send 0 1, ?_⟩
    simp [step, stepInTurn, Session.step, live, waits, free, more, fits]
  · obtain ⟨index, chunk, ready⟩ := held_ready free
    refine ⟨.handleRead index, ?_⟩
    simp [step, stepInTurn, Session.step, live, ready]

theorem lockstep_never_stuck (server : Server) (requests : List KeepAliveRequest) :
    NeverStuck (step server) (InStep server requests) Finished := by
  intro lockstep inStep busy
  have live := inStep.live
  cases inStep.stage with
  | resting nothing buffer free answered written wire =>
      cases writes : lockstep.session.writes with
      | cons write others =>
          have sent : write.sent = true := by
            have all := List.filter_eq_nil_iff.mp written write (by simp [writes])
            simpa using all
          refine ⟨.handleWrite 0, ?_⟩
          simp [step, stepInTurn, Session.step, live, writes, sent]
      | nil =>
          cases left : lockstep.left with
          | nil => exact absurd ⟨left, nothing, free, writes⟩ busy
          | cons request later =>
              have heard : lockstep.session.wire.length = lockstep.begun.length := by
                rw [wire, texts, List.length_map, answered, answers_to_length]
              refine ⟨.ask, ?_⟩
              simp [step, left, nothing, heard]
  | asking before request last cut few intact unfinished answered written wire =>
      exact asking_never_stuck inStep unfinished
  | answering write nothing buffer free answered only stored wire =>
      have member : write ∈ unsent lockstep.session := by simp [only]
      obtain ⟨inWrites, waits⟩ := List.mem_filter.mp member
      obtain ⟨index, found⟩ := List.mem_iff_getElem?.mp inWrites
      refine ⟨.transmit index [], ?_⟩
      have notSent : write.sent = false := by simpa using waits
      simp [step, stepInTurn, Session.step, live, found, notSent]

theorem answers_to_prefix (server : Server) (early late : List KeepAliveRequest) :
    (answersTo server early).map Response.text <+:
      (answersTo server (early ++ late)).map Response.text := by
  simp only [answersTo, allBytes, List.map_append, kept_responses_append]
  exact List.prefix_append _ _

/-- What is on the wire are the first of the responses. -/
theorem wire_in_step (inStep : InStep server requests lockstep) :
    lockstep.session.wire <+: (answersTo server requests).map Response.text := by
  rw [inStep.stream]
  cases inStep.stage with
  | resting nothing buffer free answered written wire =>
      rw [wire, texts, answered]
      exact answers_to_prefix server lockstep.begun lockstep.left
  | asking before request last cut few intact unfinished answered written wire =>
      rw [wire, texts, answered, last, List.append_assoc]
      exact answers_to_prefix server before _
  | answering write nothing buffer free answered only stored wire =>
      have front := answers_to_prefix server lockstep.begun lockstep.left
      rw [← answered, ← texts, ← wire] at front
      exact (List.prefix_append _ _).trans front

theorem heard_in_step (inStep : InStep server requests lockstep) :
    lockstep.session.wire <+: texts lockstep.session ∧
      lockstep.session.responses.length ≤ lockstep.session.wire.length + 1 := by
  have count : (texts lockstep.session).length = lockstep.session.responses.length :=
    List.length_map _
  cases inStep.stage with
  | resting nothing buffer free answered written wire =>
      rw [wire, count]
      exact ⟨List.prefix_refl _, Nat.le_succ _⟩
  | asking before request last cut few intact unfinished answered written wire =>
      rw [wire, count]
      exact ⟨List.prefix_refl _, Nat.le_succ _⟩
  | answering write nothing buffer free answered only stored wire =>
      rw [← count, ← wire]
      exact ⟨List.prefix_append _ _, by simp⟩

theorem answered_in_step (inStep : InStep server requests lockstep) :
    lockstep.session.responses.length ≤ requests.length ∧
      lockstep.session.responses =
        answersTo server (requests.take lockstep.session.responses.length) := by
  have first : ∀ early late, requests = early ++ late →
      lockstep.session.responses = answersTo server early →
        lockstep.session.responses.length ≤ requests.length ∧
          lockstep.session.responses =
            answersTo server (requests.take lockstep.session.responses.length) := by
    intro early late split answered
    have count := congrArg List.length answered
    rw [answers_to_length] at count
    rw [count, split, List.take_left, List.length_append]
    exact ⟨Nat.le_add_right _ _, answered⟩
  cases inStep.stage with
  | resting nothing buffer free answered written wire =>
      exact first _ _ inStep.stream answered
  | asking before request last cut few intact unfinished answered written wire =>
      have stream := inStep.stream
      rw [last, List.append_assoc] at stream
      exact first _ _ stream answered
  | answering write nothing buffer free answered only stored wire =>
      exact first _ _ inStep.stream answered

theorem unsent_in_step (inStep : InStep server requests lockstep) :
    ∀ write ∈ unsent lockstep.session,
      storageContents lockstep.session write = some write.text := by
  intro write member
  cases inStep.stage with
  | resting nothing buffer free answered written wire =>
      rw [written] at member
      cases member
  | asking before request last cut few intact unfinished answered written wire =>
      rw [written] at member
      cases member
  | answering other nothing buffer free answered only stored wire =>
      rw [only] at member
      rw [List.mem_singleton.mp member]
      exact stored

theorem finished_in_step (inStep : InStep server requests lockstep)
    (finished : Finished lockstep) :
    lockstep.session.wire = (answersTo server requests).map Response.text ∧
      lockstep.session.reads.length = 1 + requests.length := by
  have everything : requests = lockstep.begun := by
    rw [inStep.stream, finished.left, List.append_nil]
  cases inStep.stage with
  | resting nothing buffer free answered written wire =>
      have done := inStep.writes
      rw [answered, answers_to_length, finished.written, List.length_nil] at done
      constructor
      · rw [wire, texts, answered, everything]
      · rw [inStep.reads, everything]
        omega
  | asking before request last cut few intact unfinished answered written wire =>
      rcases unfinished with holds | more
      · exact absurd finished.handled holds
      · exact absurd finished.missing more
  | answering write nothing buffer free answered only stored wire =>
      rw [unsent, finished.written] at only
      cases only

/-- A client that waits is in step with its session, and so many steps are enough. -/
theorem in_step_run (small : ∀ request ∈ requests, request.bytes.length ≤ maxRequestSize)
    {events : List Event} (ran : run (step server) (start requests) events = some lockstep) :
    InStep server requests lockstep ∧
      events.length ≤ 2 * (allBytes requests).flatten.length + 3 * requests.length := by
  obtain ⟨inStep, bound⟩ :=
    run_descends (lockstep_descends server small) (in_step_start server requests) ran
  have all : remaining (start requests) =
      2 * (allBytes requests).flatten.length + 3 * requests.length := rfl
  exact ⟨inStep, by omega⟩

theorem finished_of_stuck (inStep : InStep server requests lockstep)
    (stuck : ∀ event, step server lockstep event = none) : Finished lockstep := by
  by_contra busy
  obtain ⟨event, next, stepped⟩ := lockstep_never_stuck server requests lockstep inStep busy
  rw [stuck event] at stepped
  cases stepped

end Lockstep

/-- A client that waits, for each request until it has the response and with each piece
until the one before has been handled, has the first of its responses in every state and
all of them in the end, which comes after so many steps at most. No response is
overwritten, and there is one read for each write that is done, and another. -/
theorem waiting_client_served (server : Server) (requests : List KeepAliveRequest)
    (small : ∀ request ∈ requests, request.bytes.length ≤ maxRequestSize)
    {events : List Lockstep.Event} {state : Lockstep}
    (ran : run (Lockstep.step server) (Lockstep.start requests) events = some state) :
    let answers := (keptResponses server 0 (allBytes requests)).map Response.text
    state.session.wire <+: answers ∧
      (∀ write ∈ unsent state.session, storageContents state.session write = some write.text) ∧
      state.session.deleted = false ∧ state.session.escaped = 0 ∧
      state.session.reads.length = 1 + state.session.writesDone ∧
      events.length ≤ 2 * (allBytes requests).flatten.length + 3 * requests.length ∧
      ((∀ event, Lockstep.step server state event = none) →
        state.session.wire = answers ∧ state.session.reads.length = 1 + requests.length) := by
  intro answers
  obtain ⟨inStep, bound⟩ := Lockstep.in_step_run small ran
  refine ⟨Lockstep.wire_in_step inStep, Lockstep.unsent_in_step inStep, inStep.live, inStep.calm,
    inStep.reads, bound, ?_⟩
  intro stuck
  exact Lockstep.finished_in_step inStep (Lockstep.finished_of_stuck inStep stuck)

def askedOnce : List Lockstep.Event :=
  [.ask, .send 0 10, .handleRead 0, .send 0 8, .handleRead 0, .transmit 0 [], .handleWrite 0]

theorem waiting_client_served_get :
    ∃ state, run (Lockstep.step emptyServer) (Lockstep.start [getRequest]) askedOnce = some state ∧
      state.session.wire <+: (keptResponses emptyServer 0 [getRequest.bytes]).map Response.text ∧
      state.session.reads.length = 1 + state.session.writesDone := by
  have possible : (run (Lockstep.step emptyServer) (Lockstep.start [getRequest])
      askedOnce).isSome = true := by
    decide +kernel
  obtain ⟨state, ran⟩ := Option.isSome_iff_exists.mp possible
  have small : ∀ request ∈ [getRequest], request.bytes.length ≤ maxRequestSize := by
    intro request member
    rw [List.mem_singleton.mp member]
    decide +kernel
  obtain ⟨wire, _, _, _, reads, _⟩ := waiting_client_served emptyServer [getRequest] small ran
  exact ⟨state, ran, wire, reads⟩

end RestfulWebserver.Session
