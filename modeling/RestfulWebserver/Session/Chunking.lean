import RestfulWebserver.Session.Readers

/-!
# Framing does not depend on the chunks

As long as no response closes the connection, what `handle_read` has extracted
from a stream and what it keeps in `request_buffer_` are the batch of the whole
stream, in whatever chunks it was delivered.
-/

namespace RestfulWebserver.Session

open RestfulWebserver.Library RestfulWebserver.Http

/-- The outstanding read completes with a chunk and its handler runs. -/
def deliver (server : Server) (state : State) (chunk : Bytes) : State :=
  (handleRead server
    { state with data := fill state.data chunk, reads := state.reads.tail } false
    chunk.length).1

def deliverAll (server : Server) (chunks : List Bytes) : State :=
  chunks.foldl (deliver server) start

/-- No request was answered with 400, 413 or `Connection: close`, and the size
check, which answers 413, has not fired. -/
def StaysOpen (state : State) : Prop := ∀ response ∈ state.responses, response.close = false

/-- What the session has done with the bytes received so far: it has answered
the requests of their batch and holds its rest. -/
structure Framed (server : Server) (received : Bytes) (state : State) : Prop where
  requests : state.requests = (batch received).kept
  buffer : state.requestBuffer = (batch received).rest
  responses : state.responses = keptResponses server 0 (batch received).kept
  noClose : (batch received).exit.extracted = []

theorem deliver_all_snoc (server : Server) (chunks : List Bytes) (chunk : Bytes) :
    deliverAll server (chunks ++ [chunk]) = deliver server (deliverAll server chunks) chunk := by
  simp [deliverAll]

theorem kept_responses_append (server : Server) (count : Nat) (early late : List Bytes) :
    keptResponses server count (early ++ late) =
      keptResponses server count early ++ keptResponses server (count + early.length) late := by
  induction early generalizing count with
  | nil => rfl
  | cons full early ih =>
      have number : count + 1 + early.length = count + (early.length + 1) := by omega
      simp only [List.cons_append, keptResponses, List.length_cons, ih, number]

/-- What a delivery does: the 413 of the size check, or the batch of the buffer. -/
theorem deliver_cases (server : Server) (state : State) (chunk : Bytes) :
    maxRequestSize < state.requestBuffer.length + chunk.length ∧
        (deliver server state chunk).responses =
          state.responses ++ [⟨none, errorResponse, true⟩] ∨
      state.requestBuffer.length + chunk.length ≤ maxRequestSize ∧
        ∃ taken, taken = batch (state.requestBuffer ++ chunk) ∧
          (deliver server state chunk).requests = state.requests ++ taken.extracted ∧
          (deliver server state chunk).requestBuffer = taken.rest ∧
          (deliver server state chunk).responses =
            state.responses ++ batchResponses server state.responses.length taken := by
  have chunkAtFront : (fill state.data chunk).take chunk.length = chunk := by
    simp [fill]
  by_cases exceeds : maxRequestSize < state.requestBuffer.length + chunk.length
  · left
    simp [deliver, handleRead, exceeds, respondOversize]
  · right
    refine ⟨by omega, _, rfl, ?_⟩
    simp [deliver, handleRead, exceeds, read_loop_eq, afterBatch, writeResponses, chunkAtFront]

theorem stays_open_before {server : Server} {state : State} {chunk : Bytes}
    (stays : StaysOpen (deliver server state chunk)) : StaysOpen state := by
  intro response member
  apply stays
  rcases deliver_cases server state chunk with ⟨_, exceeds⟩ | ⟨_, taken, _, _, _, responses⟩
  · rw [exceeds]
    exact List.mem_append_left _ member
  · rw [responses]
    exact List.mem_append_left _ member

theorem fits_of_stays_open {server : Server} {state : State} {chunk : Bytes}
    (stays : StaysOpen (deliver server state chunk)) :
    state.requestBuffer.length + chunk.length ≤ maxRequestSize := by
  rcases deliver_cases server state chunk with ⟨_, exceeds⟩ | ⟨fits, _⟩
  · have closes := stays ⟨none, errorResponse, true⟩ (by simp [exceeds])
    cases closes
  · exact fits

/-- A batch whose responses all keep the connection extracts only such requests. -/
theorem exit_of_open_responses {server : Server} {count : Nat} {taken : Batch}
    (stays : ∀ response ∈ batchResponses server count taken, response.close = false) :
    taken.exit.extracted = [] ∧
      batchResponses server count taken = keptResponses server count taken.kept := by
  have silent : exitResponses server (count + taken.kept.length) taken.exit = [] := by
    apply List.eq_nil_iff_forall_not_mem.mpr
    intro response member
    have closes := exit_responses_close server _ taken.exit response member
    have keeps := stays response (List.mem_append_right _ member)
    rw [closes] at keeps
    cases keeps
  constructor
  · cases exit : taken.exit with
    | closing full => simp [exit, exitResponses] at silent
    | _ => rfl
  · rw [batchResponses, silent, List.append_nil]

/-- The step lemma: one more chunk extends the batch. -/
theorem framed_deliver {server : Server} {received : Bytes} {state : State} (chunk : Bytes)
    (framed : Framed server received state) (stays : StaysOpen (deliver server state chunk)) :
    Framed server (received ++ chunk) (deliver server state chunk) := by
  rcases framed with ⟨requests, buffer, responses, noClose⟩
  rcases deliver_cases server state chunk with ⟨_, exceeds⟩ | ⟨_, taken, cut, moreRequests, rest, more⟩
  · have closes := stays ⟨none, errorResponse, true⟩ (by simp [exceeds])
    cases closes
  · have whole := batch_append received chunk noClose
    rw [← buffer, ← cut] at whole
    have newOpen : ∀ response ∈ batchResponses server state.responses.length taken,
        response.close = false := by
      intro response member
      apply stays
      rw [more]
      exact List.mem_append_right _ member
    have exits := exit_of_open_responses newOpen
    have number : state.responses.length = 0 + (batch received).kept.length := by
      rw [responses, kept_responses_length, Nat.zero_add]
    constructor
    · rw [moreRequests, whole, requests, Batch.extracted, exits.1, List.append_nil]
    · rw [rest, whole]
    · rw [more, exits.2, whole, kept_responses_append, ← responses, number]
    · rw [whole]
      exact exits.1

theorem framed_deliver_all (server : Server) (chunks : List Bytes)
    (stays : StaysOpen (deliverAll server chunks)) :
    Framed server chunks.flatten (deliverAll server chunks) := by
  induction chunks using List.reverseRecOn with
  | nil =>
      have empty : nextFrame [] = .ok .incomplete := rfl
      constructor <;>
        simp [deliverAll, start, startRead, constructed, batch_incomplete empty, keptResponses,
          Exit.extracted]
  | append_singleton chunks chunk ih =>
      rw [deliver_all_snoc] at stays ⊢
      rw [List.flatten_append, List.flatten_singleton]
      exact framed_deliver chunk (ih (stays_open_before stays)) stays

/-- However a stream is cut into chunks, a session that stays open extracts the
same requests, answers each of them once and is left with the same bytes; the
requests and these bytes are the stream. -/
theorem framing_independent_of_chunks (server : Server) (stream : Bytes)
    (chunks others : List Bytes) (whole : chunks.flatten = stream)
    (otherWhole : others.flatten = stream) (stays : StaysOpen (deliverAll server chunks))
    (otherStays : StaysOpen (deliverAll server others)) :
    (deliverAll server chunks).requests = (deliverAll server others).requests ∧
      (deliverAll server chunks).responses = (deliverAll server others).responses ∧
      (deliverAll server chunks).requestBuffer = (deliverAll server others).requestBuffer ∧
      (deliverAll server chunks).responses.length = (deliverAll server chunks).requests.length ∧
      (deliverAll server chunks).requests.flatten ++ (deliverAll server chunks).requestBuffer =
        stream := by
  have framed := framed_deliver_all server chunks stays
  have otherFramed := framed_deliver_all server others otherStays
  rw [whole] at framed
  rw [otherWhole] at otherFramed
  have partition := batch_partition stream
  rw [Batch.extracted, framed.noClose, List.append_nil] at partition
  rw [framed.requests, framed.responses, framed.buffer, otherFramed.requests,
    otherFramed.responses, otherFramed.buffer]
  exact ⟨rfl, rfl, rfl, kept_responses_length server 0 _, partition⟩

/-- A request with a body, cut inside its marker and inside its body. -/
theorem framing_independent_of_chunks_post :
    (deliverAll emptyServer ["POST / HTTP/1.1\r\nContent-Length: 2\r\n\r\nhi".toList]).requests =
      (deliverAll emptyServer ["POST / HTTP/1.1\r\nContent-Length: 2\r\n\r".toList,
        "\nh".toList, "i".toList]).requests := by
  have stays : StaysOpen (deliverAll emptyServer
      ["POST / HTTP/1.1\r\nContent-Length: 2\r\n\r\nhi".toList]) := by
    unfold StaysOpen
    decide +kernel
  have otherStays : StaysOpen (deliverAll emptyServer
      ["POST / HTTP/1.1\r\nContent-Length: 2\r\n\r".toList, "\nh".toList, "i".toList]) := by
    unfold StaysOpen
    decide +kernel
  exact (framing_independent_of_chunks emptyServer
    "POST / HTTP/1.1\r\nContent-Length: 2\r\n\r\nhi".toList _ _ rfl rfl stays otherStays).1

end RestfulWebserver.Session
