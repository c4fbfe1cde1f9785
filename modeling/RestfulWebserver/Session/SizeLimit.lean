import Mathlib.Algebra.Ring.Nat
import RestfulWebserver.Session.Chunking
import RestfulWebserver.Session.Frames
import RestfulWebserver.Session.Splicing

/-!
# What the size limit is applied to

The check compares the bytes of the unfinished request together with the whole
new chunk with `max_request_size_`, before anything is cut out. The bytes of the
next requests that ride in the same chunk count against a request that itself
is within the limit.
-/

namespace RestfulWebserver.Session

open RestfulWebserver.Library RestfulWebserver.Http

/-- Of the first `received` bytes of requests of these sizes, those that belong
to the request that is not complete yet. -/
def unfinishedBytes : List Nat → Nat → Nat
  | [], received => received
  | size :: later, received =>
      if size ≤ received then unfinishedBytes later (received - size) else received

/-- At every read, the bytes received of an unfinished request and the new chunk
are within the limit. -/
def EveryReadFits (sizes : List Nat) (chunks : List Bytes) : Prop :=
  ∀ before chunk after, chunks = before ++ chunk :: after →
    unfinishedBytes sizes before.flatten.length + chunk.length ≤ maxRequestSize

def allBytes (requests : List KeepAliveRequest) : List Bytes :=
  requests.map KeepAliveRequest.bytes

def sizes (requests : List KeepAliveRequest) : List Nat :=
  requests.map fun request => request.bytes.length

theorem sizes_cons (request : KeepAliveRequest) (later : List KeepAliveRequest) :
    sizes (request :: later) = request.bytes.length :: sizes later := rfl

structure Served (requests : List KeepAliveRequest) (state : State) : Prop where
  stays : StaysOpen state
  extracted : state.requests = allBytes requests
  dispatched : state.responses.map Response.request =
    (allBytes requests).map fun full => some (parseRequest full)

theorem body_within_limit {request : KeepAliveRequest}
    (small : request.bytes.length ≤ maxRequestSize) :
    request.body.length ≤ maxContentLength := by
  have limits : maxRequestSize ≤ maxContentLength := by decide
  simp only [KeepAliveRequest.bytes, List.length_append] at small
  omega

/-- The batch of a part of the stream: nothing but complete requests is taken,
and the rest is the part of the unfinished one. -/
theorem batch_received {requests : List KeepAliveRequest} {received missing : Bytes}
    (small : ∀ request ∈ requests, request.bytes.length ≤ maxRequestSize)
    (split : (allBytes requests).flatten = received ++ missing) :
    (batch received).exit = .waiting ∧
      (batch received).rest.length = unfinishedBytes (sizes requests) received.length ∧
      (missing = [] → (batch received).kept = allBytes requests) := by
  induction requests generalizing received with
  | nil =>
      rcases List.append_eq_nil_iff.mp split.symm with ⟨rfl, rfl⟩
      have empty : nextFrame [] = .ok .incomplete := rfl
      rw [batch_incomplete empty]
      exact ⟨rfl, rfl, fun _ => rfl⟩
  | cons request later ih =>
      have bodySmall := body_within_limit (small request List.mem_cons_self)
      have smallLater := fun other member => small other (List.mem_cons_of_mem request member)
      by_cases complete : request.bytes.length ≤ received.length
      · have front : received = request.bytes ++ received.drop request.bytes.length := by
          have taken := congrArg (List.take request.bytes.length) split
          rw [allBytes, List.map_cons, List.flatten_cons, List.take_left,
            List.take_append_of_le_length complete] at taken
          conv => lhs; rw [← List.take_append_drop request.bytes.length received, ← taken]
        generalize received.drop request.bytes.length = rest at front
        subst front
        rw [allBytes, List.map_cons, List.flatten_cons, List.append_assoc,
          List.append_cancel_left_eq] at split
        rcases ih smallLater split with ⟨waits, length, whole⟩
        have found := next_frame_request request bodySmall rest
        have keeps := request_keeps_connection request
        have took : (request.bytes ++ rest).take request.bytes.length = request.bytes :=
          List.take_left
        have left : (request.bytes ++ rest).drop request.bytes.length = rest := List.drop_left
        rw [batch_kept found (by rw [took]; exact keeps), took, left]
        refine ⟨waits, ?_, ?_⟩
        · rw [length, sizes_cons, unfinishedBytes, List.length_append,
            if_pos (Nat.le_add_right _ _), Nat.add_sub_cancel_left]
        · intro nothing
          rw [whole nothing]
          rfl
      · have inside : request.bytes = received ++ request.bytes.drop received.length := by
          have taken := congrArg (List.take received.length) split
          rw [allBytes, List.map_cons, List.flatten_cons, List.take_left,
            List.take_append_of_le_length (by omega)] at taken
          conv => lhs; rw [← List.take_append_drop received.length request.bytes, taken]
        have someMissing : request.bytes.drop received.length ≠ [] := by
          intro none
          rw [none, List.append_nil] at inside
          exact complete (Nat.le_of_eq (congrArg List.length inside))
        rw [batch_incomplete (next_frame_unfinished request bodySmall inside someMissing)]
        refine ⟨rfl, ?_, ?_⟩
        · rw [sizes_cons, unfinishedBytes, if_neg complete]
        · intro nothing
          have lengths := congrArg List.length split
          simp only [allBytes, List.map_cons, List.flatten_cons, List.length_append, nothing,
            List.length_nil] at lengths
          omega

theorem stays_open_front {server : Server} {before after : List Bytes}
    (stays : StaysOpen (deliverAll server (before ++ after))) :
    StaysOpen (deliverAll server before) := by
  induction after using List.reverseRecOn with
  | nil => rwa [List.append_nil] at stays
  | append_singleton after chunk ih =>
      rw [← List.append_assoc, deliver_all_snoc] at stays
      exact ih (stays_open_before stays)

theorem kept_responses_requests (server : Server) (count : Nat) (fulls : List Bytes) :
    (keptResponses server count fulls).map Response.request =
      fulls.map fun full => some (parseRequest full) := by
  induction fulls generalizing count with
  | nil => rfl
  | cons full fulls ih =>
      rw [keptResponses, List.map_cons, List.map_cons, ih]
      rfl

section Deliveries

variable {server : Server} {requests : List KeepAliveRequest} {chunks : List Bytes}

theorem buffer_length {missing : Bytes}
    (small : ∀ request ∈ requests, request.bytes.length ≤ maxRequestSize)
    (split : (allBytes requests).flatten = chunks.flatten ++ missing)
    (stays : StaysOpen (deliverAll server chunks)) :
    (deliverAll server chunks).requestBuffer.length =
      unfinishedBytes (sizes requests) chunks.flatten.length := by
  rw [(framed_deliver_all server chunks stays).buffer]
  exact (batch_received small split).2.1

/-- If the session stays open, no read met the size check. -/
theorem fits_of_open_delivery
    (small : ∀ request ∈ requests, request.bytes.length ≤ maxRequestSize)
    (delivered : chunks.flatten = (allBytes requests).flatten)
    (stays : StaysOpen (deliverAll server chunks)) : EveryReadFits (sizes requests) chunks := by
  intro before chunk after split
  subst split
  have staysFront : StaysOpen (deliverAll server (before ++ [chunk])) := by
    apply stays_open_front
    rw [List.append_assoc, List.singleton_append]
    exact stays
  rw [deliver_all_snoc] at staysFront
  have fits := fits_of_stays_open staysFront
  have parts : (allBytes requests).flatten = before.flatten ++ (chunk :: after).flatten := by
    rw [← delivered, List.flatten_append]
  rwa [buffer_length small parts (stays_open_before staysFront)] at fits

theorem open_delivery_of_fits {missing : Bytes}
    (small : ∀ request ∈ requests, request.bytes.length ≤ maxRequestSize)
    (split : (allBytes requests).flatten = chunks.flatten ++ missing)
    (fits : EveryReadFits (sizes requests) chunks) : StaysOpen (deliverAll server chunks) := by
  induction chunks using List.reverseRecOn generalizing missing with
  | nil =>
      intro response member
      cases member
  | append_singleton chunks chunk ih =>
      rw [List.flatten_append, List.flatten_singleton] at split
      have earlier : (allBytes requests).flatten = chunks.flatten ++ (chunk ++ missing) := by
        rw [split, List.append_assoc]
      have stays := ih earlier (by
        intro before other after cut
        apply fits before other (after ++ [chunk])
        rw [cut, List.append_assoc, List.cons_append])
      have framed := framed_deliver_all server chunks stays
      have room := fits chunks chunk [] rfl
      rw [← buffer_length small earlier stays] at room
      have whole := batch_append chunks.flatten chunk framed.noClose
      have waits := (batch_received small split).1
      rw [whole, ← framed.buffer] at waits
      rw [deliver_all_snoc]
      intro response member
      rcases deliver_cases server (deliverAll server chunks) chunk with
        ⟨exceeds, _⟩ | ⟨_, taken, cut, _, _, responses⟩
      · omega
      · rw [← cut] at waits
        rw [responses] at member
        rcases List.mem_append.mp member with old | new
        · exact stays response old
        · rw [batchResponses, waits, exitResponses, List.append_nil] at new
          exact kept_responses_open server _ _ response new

theorem served_of_open_delivery
    (small : ∀ request ∈ requests, request.bytes.length ≤ maxRequestSize)
    (delivered : chunks.flatten = (allBytes requests).flatten)
    (stays : StaysOpen (deliverAll server chunks)) : Served requests (deliverAll server chunks) := by
  have framed := framed_deliver_all server chunks stays
  have split : (allBytes requests).flatten = chunks.flatten ++ [] := by
    rw [delivered, List.append_nil]
  have all := (batch_received small split).2.2 rfl
  constructor
  · exact stays
  · rw [framed.requests, all]
  · rw [framed.responses, all, kept_responses_requests]

/-- Requests that leave room for a whole chunk fit in every delivery. -/
theorem fits_of_small (sizes : List Nat) (received bound : Nat)
    (small : ∀ size ∈ sizes, size ≤ bound) (inside : received ≤ sizes.sum) :
    unfinishedBytes sizes received ≤ bound - 1 := by
  induction sizes generalizing received with
  | nil =>
      simp only [List.sum_nil] at inside
      simp only [unfinishedBytes]
      omega
  | cons size later ih =>
      have sizeSmall := small size List.mem_cons_self
      rw [unfinishedBytes]
      split
      · apply ih
        · exact fun other member => small other (List.mem_cons_of_mem size member)
        · rw [List.sum_cons] at inside
          omega
      · omega

end Deliveries

/-- Every request of a stream is served exactly when at every read the bytes of
the unfinished request and the new chunk are within the limit; that is so in
every delivery if each request is smaller than the limit by a chunk. -/
theorem every_request_served_iff (server : Server) (requests : List KeepAliveRequest)
    (chunks : List Bytes)
    (small : ∀ request ∈ requests, request.bytes.length ≤ maxRequestSize)
    (bounded : ∀ chunk ∈ chunks, 0 < chunk.length ∧ chunk.length ≤ maxLength)
    (delivered : chunks.flatten = (allBytes requests).flatten) :
    (Served requests (deliverAll server chunks) ↔ EveryReadFits (sizes requests) chunks) ∧
      ((∀ request ∈ requests, request.bytes.length ≤ maxRequestSize - maxLength + 1) →
        Served requests (deliverAll server chunks)) := by
  have split : (allBytes requests).flatten = chunks.flatten ++ [] := by
    rw [delivered, List.append_nil]
  have served : EveryReadFits (sizes requests) chunks →
      Served requests (deliverAll server chunks) := fun fits =>
    served_of_open_delivery small delivered (open_delivery_of_fits small split fits)
  constructor
  · constructor
    · intro result
      exact fits_of_open_delivery small delivered result.stays
    · exact served
  · intro leavesRoom
    apply served
    intro before chunk after cut
    have chunkBound := (bounded chunk (by simp [cut])).2
    have inside : before.flatten.length ≤ (sizes requests).sum := by
      have total := congrArg List.length delivered
      rw [cut, List.length_flatten, List.length_flatten, allBytes, List.map_map] at total
      simp only [List.map_append, List.sum_append] at total
      rw [List.length_flatten]
      change _ = (sizes requests).sum at total
      omega
    have sizeBound : ∀ size ∈ sizes requests, size ≤ maxRequestSize - maxLength + 1 := by
      intro size member
      rcases List.mem_map.mp member with ⟨request, inRequests, rfl⟩
      exact leavesRoom request inRequests
    have room := fits_of_small (sizes requests) _ _ sizeBound inside
    have limits : maxRequestSize - maxLength + 1 - 1 + maxLength = maxRequestSize := rfl
    omega

/-! ## A request within the limit that is refused -/

def getRequest : KeepAliveRequest where
  method := "GET".toList
  target := "/".toList
  fields := []
  body := []
  methodSome := by decide
  methodToken := forall_of_all (by decide)
  targetSome := by decide
  targetToken := forall_of_all (by decide)
  lengthsCorrect := fun field member => absurd member List.not_mem_nil
  bodyAnnounced := fun some => absurd rfl some
  keepsAlive := fun field member => absurd member List.not_mem_nil

def cutInside : List Bytes :=
  ["GET / HTTP/1.1\r\n\r\nGET ".toList, "/ HTTP/1.1\r\n\r\nGET / HTTP/1.1\r\n\r\n".toList]

theorem every_request_served_iff_cut :
    Served [getRequest, getRequest, getRequest] (deliverAll emptyServer cutInside) := by
  apply (every_request_served_iff emptyServer [getRequest, getRequest, getRequest] cutInside
    _ _ rfl).2
  all_goals decide

def lengthField : Field where
  name := "Content-Length".toList
  value := " 8000".toList
  nameToken := forall_of_all (by decide)
  valueInLine := forall_of_all (by decide)

theorem body_length : (bodyChunks.flatten ++ lastChunk).length = 8000 := by
  rw [body_flatten, lastChunk, List.length_append, List.length_replicate, List.length_replicate]

def postRequest : KeepAliveRequest where
  method := "POST".toList
  target := "/".toList
  fields := [lengthField]
  body := bodyChunks.flatten ++ lastChunk
  methodSome := by decide
  methodToken := forall_of_all (by decide)
  targetSome := by decide
  targetToken := forall_of_all (by decide)
  lengthsCorrect := by
    intro field member _
    cases List.mem_singleton.mp member
    rw [body_length]
    exact ⟨" ".toList, "8000".toList, [], rfl, forall_of_all (by decide), by decide,
      forall_of_all (by decide), by decide, fun byte member => absurd member List.not_mem_nil⟩
  bodyAnnounced := fun _ => ⟨lengthField, List.mem_singleton_self _, rfl⟩
  keepsAlive := by
    intro field member named
    cases List.mem_singleton.mp member
    exact absurd named (by decide)

def pipelined : List KeepAliveRequest := postRequest :: List.replicate 9 getRequest

/-- Nine short requests ride in the chunk that ends the long one: 7961 buffered
bytes and a chunk of 242 are above the limit. -/
def pipelinedChunks : List Bytes :=
  (postHeader :: bodyChunks) ++ [lastChunk ++ (List.replicate 9 keepAliveGet).flatten]

theorem post_request_bytes : postRequest.bytes = postHeader ++ (bodyChunks.flatten ++ lastChunk) := by
  have head : postRequest.head = postHeader := by decide +kernel
  rw [KeepAliveRequest.bytes, head]
  rfl

theorem legal_request_refused :
    ¬ ∀ (server : Server) (requests : List KeepAliveRequest) (chunks : List Bytes),
      (∀ request ∈ requests, request.bytes.length ≤ maxRequestSize) →
      (∀ chunk ∈ chunks, 0 < chunk.length ∧ chunk.length ≤ maxLength) →
      chunks.flatten = (allBytes requests).flatten →
      Served requests (deliverAll server chunks) := by
  intro served
  have limit : maxRequestSize = 8192 := rfl
  have chunkLimit : maxLength = 1024 := rfl
  have headerLength : postHeader.length = 41 := rfl
  have lastLength : lastChunk.length = 80 := by
    rw [lastChunk, List.length_replicate]
  have bodyLength : bodyChunks.flatten.length = 7920 := by
    rw [body_flatten, List.length_replicate]
  have getLength : getRequest.bytes.length = 18 := rfl
  have getsLength : (List.replicate 9 keepAliveGet).flatten.length = 162 := by decide +kernel
  have postLength : postRequest.bytes.length = 8041 := by
    rw [post_request_bytes, List.length_append, headerLength, body_length]
  have small : ∀ request ∈ pipelined, request.bytes.length ≤ maxRequestSize := by
    intro request member
    rcases List.mem_cons.mp member with rfl | short
    · omega
    · rw [List.eq_of_mem_replicate short]
      omega
  have bounded : ∀ chunk ∈ pipelinedChunks, 0 < chunk.length ∧ chunk.length ≤ maxLength := by
    intro chunk member
    rcases List.mem_append.mp member with early | last
    · rcases List.mem_cons.mp early with rfl | inBody
      · omega
      · rw [List.eq_of_mem_replicate inBody, List.length_replicate]
        omega
    · rw [List.mem_singleton.mp last, List.length_append]
      omega
  have delivered : pipelinedChunks.flatten = (allBytes pipelined).flatten := by
    have gets : allBytes (List.replicate 9 getRequest) = List.replicate 9 keepAliveGet := by
      rw [allBytes, List.map_replicate]
      rfl
    rw [pipelined, allBytes, List.map_cons, List.flatten_cons, post_request_bytes]
    rw [allBytes] at gets
    rw [gets, pipelinedChunks, List.flatten_append, List.flatten_cons, List.flatten_singleton]
    simp only [List.append_assoc]
  have stays := (served emptyServer pipelined pipelinedChunks small bounded delivered).stays
  have fits := fits_of_open_delivery small delivered stays (postHeader :: bodyChunks) _ [] rfl
  have buffered : (postHeader :: bodyChunks).flatten.length = 7961 := by
    rw [List.flatten_cons, List.length_append, headerLength, bodyLength]
  have lastChunkLength :
      (lastChunk ++ (List.replicate 9 keepAliveGet).flatten).length = 242 := by
    rw [List.length_append, lastLength, getsLength]
  rw [buffered, lastChunkLength, pipelined, sizes_cons, postLength, unfinishedBytes,
    if_neg (by omega)] at fits
  omega

end RestfulWebserver.Session
