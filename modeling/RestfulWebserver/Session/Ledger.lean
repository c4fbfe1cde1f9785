import RestfulWebserver.Session.Splicing

/-!
# What the responses of a session answer

Over a whole run, in whatever order reads and writes complete and whatever is
answered with an error: each response has one cause, the requests among the
causes are those that were extracted, and the bytes they were extracted from
have been received.
-/

namespace RestfulWebserver.Session

open RestfulWebserver.Library RestfulWebserver.Http

inductive Cause where
  | request (fullRequest : Bytes)
  /-- Buffer and chunk are larger than `max_request_size_`. -/
  | largeBuffer
  /-- The declared length is larger than `max_content_length_`. -/
  | largeBody
  deriving DecidableEq, Repr

def Cause.fullRequest? : Cause → Option Bytes
  | .request fullRequest => some fullRequest
  | _ => none

def responseTo (server : Server) (count : Nat) : Cause → Response
  | .request fullRequest =>
      if endsConnection (parseRequest fullRequest) then closingResponse server count fullRequest
      else keptResponse server count fullRequest
  | .largeBuffer => ⟨none, errorResponse, true⟩
  | .largeBody => ⟨none, payloadTooLargeResponse.toString, true⟩

def responsesTo (server : Server) : Nat → List Cause → List Response
  | _, [] => []
  | count, cause :: later => responseTo server count cause :: responsesTo server (count + 1) later

def arrived (state : State) : Bytes := state.reads.reduceOption.flatten

structure Ledger (server : Server) (state : State) (causes : List Cause) : Prop where
  responses : state.responses = responsesTo server 0 causes
  requests : state.requests = causes.filterMap Cause.fullRequest?
  buffer : state.requestBuffer.length ≤ maxRequestSize
  sizes : ∀ fullRequest ∈ state.requests,
    4 ≤ fullRequest.length ∧ fullRequest.length ≤ maxRequestSize
  received : state.requests.flatten.length + state.requestBuffer.length +
    (arrived state).length ≤ state.received.length

/-! ## A batch -/

theorem responses_to_append (server : Server) (count : Nat) (early late : List Cause) :
    responsesTo server count (early ++ late) =
      responsesTo server count early ++ responsesTo server (count + early.length) late := by
  induction early generalizing count with
  | nil => rfl
  | cons cause early ih =>
      have number : count + 1 + early.length = count + (early.length + 1) := by omega
      simp only [List.cons_append, responsesTo, List.length_cons, ih, number]

theorem responses_to_length (server : Server) (count : Nat) (causes : List Cause) :
    (responsesTo server count causes).length = causes.length := by
  induction causes generalizing count with
  | nil => rfl
  | cons cause causes ih => simp only [responsesTo, List.length_cons, ih]

def Exit.causes : Exit → List Cause
  | .closing fullRequest => [.request fullRequest]
  | .tooLarge => [.largeBody]
  | _ => []

def Batch.causes (taken : Batch) : List Cause :=
  taken.kept.map Cause.request ++ taken.exit.causes

theorem batch_causes_extracted (taken : Batch) :
    taken.causes.filterMap Cause.fullRequest? = taken.extracted := by
  have kept : (taken.kept.map Cause.request).filterMap Cause.fullRequest? = taken.kept := by
    rw [List.filterMap_map]
    exact List.filterMap_some
  have last : taken.exit.causes.filterMap Cause.fullRequest? = taken.exit.extracted := by
    cases taken.exit <;> rfl
  rw [Batch.causes, List.filterMap_append, kept, last, Batch.extracted]

theorem batch_responses_to (server : Server) (count : Nat) (buffer : Bytes) :
    batchResponses server count (batch buffer) =
      responsesTo server count (batch buffer).causes := by
  induction buffer using batch_induction generalizing count with
  | threw buffer error found =>
      rw [batch_threw found]
      rfl
  | incomplete buffer found =>
      rw [batch_incomplete found]
      rfl
  | tooLarge buffer found =>
      rw [batch_too_large found]
      rfl
  | closing buffer size found ends =>
      rw [batch_closing found ends]
      change [closingResponse server count (buffer.take size)] = [responseTo server count _]
      rw [responseTo, if_pos ends]
  | kept buffer size found keeps ih =>
      have open_ : ¬ endsConnection (parseRequest (buffer.take size)) = true := by simp [keeps]
      rw [batch_kept found keeps, batch_responses_cons, ih]
      simp only [Batch.causes, List.map_cons, List.cons_append, responsesTo, responseTo,
        if_neg open_]

theorem batch_extracted_sizes (buffer : Bytes) :
    ∀ fullRequest ∈ (batch buffer).extracted,
      4 ≤ fullRequest.length ∧ fullRequest.length ≤ buffer.length := by
  have front : ∀ {buffer size}, nextFrame buffer = .ok (.complete size) →
      4 ≤ (buffer.take size).length ∧ (buffer.take size).length ≤ buffer.length := by
    intro buffer size found
    have bounds := next_frame_complete_bounds found
    rw [List.length_take]
    omega
  induction buffer using batch_induction with
  | threw buffer error found => simp [batch_threw found, Batch.extracted, Exit.extracted]
  | incomplete buffer found => simp [batch_incomplete found, Batch.extracted, Exit.extracted]
  | tooLarge buffer found => simp [batch_too_large found, Batch.extracted, Exit.extracted]
  | closing buffer size found ends =>
      rw [batch_closing found ends]
      intro fullRequest member
      rw [List.mem_singleton.mp member]
      exact front found
  | kept buffer size found keeps ih =>
      rw [batch_kept found keeps]
      refine List.forall_mem_cons.mpr ⟨front found, fun fullRequest member => ?_⟩
      obtain ⟨atLeast, atMost⟩ := ih fullRequest member
      rw [List.length_drop] at atMost
      omega

/-! ## A step -/

theorem arrived_take {reads : List (Option Bytes)} {index : Nat} {chunk : Bytes}
    (ready : reads[index]? = some (some chunk)) :
    reads.reduceOption.flatten.length =
      (reads.eraseIdx index).reduceOption.flatten.length + chunk.length := by
  rw [List.eraseIdx_eq_take_drop_succ]
  conv => lhs; rw [split_at_index ready]
  simp only [List.reduceOption_append, List.reduceOption_cons_of_some, List.flatten_append,
    List.flatten_cons, List.length_append]
  omega

theorem arrived_set {reads : List (Option Bytes)} {index : Nat} (chunk : Bytes)
    (waits : reads[index]? = some none) :
    (reads.set index (some chunk)).reduceOption.flatten.length =
      reads.reduceOption.flatten.length + chunk.length := by
  obtain ⟨inside, _⟩ := List.getElem?_eq_some_iff.mp waits
  rw [List.set_eq_take_append_cons_drop, if_pos inside]
  conv => rhs; rw [split_at_index waits]
  simp only [List.reduceOption_append, List.reduceOption_cons_of_some,
    List.reduceOption_cons_of_none, List.flatten_append, List.flatten_cons, List.length_append]
  omega

variable {server : Server} {state next : State} {event : Event} {causes : List Cause}

/-- A step that starts no response. -/
theorem ledger_frame (ledger : Ledger server state causes)
    (sameResponses : next.responses = state.responses)
    (sameRequests : next.requests = state.requests)
    (sameBuffer : next.requestBuffer = state.requestBuffer)
    (receives : state.received.length + (arrived next).length ≤
      next.received.length + (arrived state).length) : Ledger server next causes where
  responses := sameResponses.trans ledger.responses
  requests := sameRequests.trans ledger.requests
  buffer := sameBuffer ▸ ledger.buffer
  sizes := sameRequests ▸ ledger.sizes
  received := by
    have before := ledger.received
    rw [sameRequests, sameBuffer]
    omega

theorem ledger_safe_delete (ledger : Ledger server state causes) :
    Ledger server (safeDelete state) causes := by
  apply ledger_frame ledger <;> unfold safeDelete <;> split_ifs <;> rfl

theorem ledger_oversize (ledger : Ledger server state causes) {index : Nat} {chunk : Bytes}
    (ready : state.reads[index]? = some (some chunk)) :
    Ledger server (respondOversize { state with reads := state.reads.eraseIdx index })
      (causes ++ [.largeBuffer]) where
  responses := by
    rw [responses_to_append, ← ledger.responses]
    rfl
  requests := by
    rw [List.filterMap_append, ← ledger.requests]
    exact (List.append_nil _).symm
  buffer := ledger.buffer
  sizes := ledger.sizes
  received := by
    have before := ledger.received
    have fewer := arrived_take ready
    simp only [arrived] at before
    simp only [respondOversize, arrived]
    omega

theorem ledger_batch (ledger : Ledger server state causes) {index : Nat} {chunk : Bytes}
    (ready : state.reads[index]? = some (some chunk))
    (fits : state.requestBuffer.length + chunk.length ≤ maxRequestSize) (escapes : Nat) :
    Ledger server { afterBatch server (appended state index chunk)
        (batch (appended state index chunk).requestBuffer) with escaped := escapes }
      (causes ++ (batch (appended state index chunk).requestBuffer).causes) := by
  have grown : (appended state index chunk).requestBuffer.length ≤
      state.requestBuffer.length + chunk.length := by
    simp only [appended, List.length_append, List.length_take]
    omega
  have parts := congrArg List.length
    (batch_partition (appended state index chunk).requestBuffer)
  rw [List.length_append] at parts
  constructor
  · have number : (appended state index chunk).responses.length = 0 + causes.length := by
      change state.responses.length = _
      rw [ledger.responses, responses_to_length, Nat.zero_add]
    rw [responses_to_append, ← ledger.responses, ← number, ← batch_responses_to]
    rfl
  · rw [List.filterMap_append, ← ledger.requests, batch_causes_extracted]
    rfl
  · change (batch (appended state index chunk).requestBuffer).rest.length ≤ _
    omega
  · intro fullRequest member
    rcases List.mem_append.mp member with earlier | new
    · exact ledger.sizes fullRequest earlier
    · have bounds := batch_extracted_sizes _ fullRequest new
      omega
  · have before := ledger.received
    have fewer := arrived_take ready
    simp only [arrived] at before
    simp only [afterBatch, writeResponses, arrived, List.reduceOption_append, exit_reads_held,
      List.append_nil, List.flatten_append, List.length_append]
    change _ + _ + (state.reads.eraseIdx index).reduceOption.flatten.length ≤ _
    simp only [appended] at grown parts ⊢
    omega

theorem ledger_effect (ledger : Ledger server state causes)
    (effect : Effect server state event next) : ∃ causes, Ledger server next causes := by
  cases effect with
  | arrive index chunk waits positive bounded =>
      refine ⟨causes, ledger_frame ledger rfl rfl rfl ?_⟩
      simp only [arrived, arrived_set chunk waits, List.length_append]
      omega
  | oversize index chunk ready exceeds => exact ⟨_, ledger_oversize ledger ready⟩
  | batch index chunk ready fits taken cut =>
      subst cut
      exact ⟨_, ledger_batch ledger ready fits _⟩
  | readError index waits =>
      refine ⟨causes, ledger_safe_delete (ledger_frame ledger rfl rfl rfl ?_)⟩
      simp only [arrived, held_erase_waiting waits]
      exact Nat.le_refl _
  | transmit index junk write pending unsent =>
      exact ⟨causes, ledger_frame ledger rfl rfl rfl (Nat.le_refl _)⟩
  | writeOpen index write pending sent =>
      refine ⟨causes, ledger_frame ledger rfl rfl rfl ?_⟩
      simp [arrived, startRead, List.reduceOption_append]
  | writeClosed index write pending sent | writeError index write pending =>
      exact ⟨causes, ledger_safe_delete (ledger_frame ledger rfl rfl rfl (Nat.le_refl _))⟩

/-- In every run each response answers one cause, the requests among the causes
are the extracted ones, each once and in order, and no request is answered that
has not been received; the buffer keeps to its limit throughout. -/
theorem every_request_answered (server : Server) (events : List Event) (state : State)
    (ran : run (step server) start events = some state) :
    ∃ causes : List Cause,
      state.responses = responsesTo server 0 causes ∧
      state.requests = causes.filterMap Cause.fullRequest? ∧
      state.requestBuffer.length ≤ maxRequestSize ∧
      (∀ fullRequest ∈ state.requests,
        4 ≤ fullRequest.length ∧ fullRequest.length ≤ maxRequestSize) ∧
      state.requests.flatten.length + state.requestBuffer.length ≤ state.received.length := by
  have kept : ∃ causes, Ledger server state causes := by
    apply invariant_of_run _ _ ran
    · exact ⟨[], rfl, rfl, by decide, by simp [start, startRead, constructed], by decide⟩
    · intro before event after holds stepped
      obtain ⟨causes, ledger⟩ := holds
      exact ledger_effect ledger (step_effect stepped).2
  obtain ⟨causes, ledger⟩ := kept
  have received := ledger.received
  exact ⟨causes, ledger.responses, ledger.requests, ledger.buffer, ledger.sizes, by omega⟩

def askedThrice : List Event :=
  [.arrive 0 (keepAliveGet ++ keepAliveGet), .readDone 0,
    .arrive 0 "POST / HTTP/1.1\r\nContent-Length: 2000000\r\n\r\n".toList, .readDone 0]

theorem every_request_answered_refused :
    ∃ state causes, run (step emptyServer) start askedThrice = some state ∧
      state.responses.length = 3 ∧ state.responses = responsesTo emptyServer 0 causes ∧
      causes.filterMap Cause.fullRequest? = [keepAliveGet, keepAliveGet] := by
  have counted : (run (step emptyServer) start askedThrice).map
      (fun state => (state.responses.length, state.requests)) =
        some (3, [keepAliveGet, keepAliveGet]) := by
    decide +kernel
  obtain ⟨state, ran, seen⟩ := Option.map_eq_some_iff.mp counted
  obtain ⟨three, both⟩ := Prod.mk.inj seen
  obtain ⟨causes, responses, requests, _⟩ :=
    every_request_answered emptyServer askedThrice state ran
  exact ⟨state, causes, ran, three, responses, requests.symm.trans both⟩

end RestfulWebserver.Session
