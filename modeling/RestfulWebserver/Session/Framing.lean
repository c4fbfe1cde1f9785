import RestfulWebserver.Http.ParseRequest
import RestfulWebserver.Library.Numeral

/-!
# Cutting requests out of the receive buffer

What one turn of the loop in `session::handle_read` finds at the front of
`request_buffer_`, and what the turns of one call find together. The second is
a function of the buffer alone: neither the handlers nor the outstanding
operations can change which bytes become a request.
-/

namespace RestfulWebserver.Session

open RestfulWebserver.Library RestfulWebserver.Http

/-- The size of `data_`, and so of the largest chunk one read delivers. -/
def maxLength : Nat := 1024

def maxRequestSize : Nat := 8192

def maxContentLength : Nat := 1 * 1024 * 1024

def headerEndMark : Bytes := "\r\n\r\n".toList

def contentLengthName : Bytes := "Content-Length:".toList

/-- The loop over the header lines. A later `Content-Length` line overrides an
earlier one; `none` is the early return for a value above the limit. -/
def scanContentLength : List Bytes → Nat → Except NumberError (Option Nat)
  | [], contentLength => .ok (some contentLength)
  | line :: lines, contentLength =>
      if contentLengthName <+: line then
        match stoul ((line.drop contentLengthName.length).dropWhile isBlank) with
        | .error error => .error error
        | .ok value =>
            if maxContentLength < value then .ok none else scanContentLength lines value
      else scanContentLength lines contentLength

inductive Frame where
  /-- Neither the header block nor the body is complete: wait for more bytes. -/
  | incomplete
  | tooLarge
  | complete (totalRequestSize : Nat)
  deriving DecidableEq, Repr

def headerPart (buffer : Bytes) : Option Bytes :=
  (find headerEndMark buffer).map fun headerEnd => buffer.take (headerEnd + 4)

def declaredLength (header : Bytes) : Except NumberError (Option Nat) :=
  scanContentLength (linesUntil blankLine header).1 0

/-- One turn of the loop, up to the extraction. -/
def nextFrame (buffer : Bytes) : Except NumberError Frame :=
  match headerPart buffer with
  | none => .ok .incomplete
  | some header =>
      match declaredLength header with
      | .error error => .error error
      | .ok none => .ok .tooLarge
      | .ok (some contentLength) =>
          let totalRequestSize := header.length + contentLength
          if buffer.length < totalRequestSize then .ok .incomplete
          else .ok (.complete totalRequestSize)

theorem header_part_length {buffer header : Bytes} (found : headerPart buffer = some header) :
    4 ≤ header.length ∧ header.length ≤ buffer.length := by
  obtain ⟨headerEnd, located, rfl⟩ := Option.map_eq_some_iff.mp found
  have room := find_some_room located
  have marks : headerEndMark.length = 4 := rfl
  simp only [List.length_take]
  omega

/-- A complete header block does not change when more bytes arrive. -/
theorem header_part_append {buffer header : Bytes} (more : Bytes)
    (found : headerPart buffer = some header) : headerPart (buffer ++ more) = some header := by
  obtain ⟨headerEnd, located, rfl⟩ := Option.map_eq_some_iff.mp found
  have room := find_some_room located
  have marks : headerEndMark.length = 4 := rfl
  simp only [headerPart, find_append more located, Option.map_some]
  rw [List.take_append_of_le_length (by omega)]

theorem next_frame_of_header {buffer header : Bytes} (found : headerPart buffer = some header) :
    nextFrame buffer = match declaredLength header with
      | .error error => .error error
      | .ok none => .ok .tooLarge
      | .ok (some contentLength) =>
          if buffer.length < header.length + contentLength then .ok .incomplete
          else .ok (.complete (header.length + contentLength)) := by
  simp only [nextFrame, found]

theorem next_frame_complete_bounds {buffer : Bytes} {size : Nat}
    (complete : nextFrame buffer = .ok (.complete size)) : 4 ≤ size ∧ size ≤ buffer.length := by
  cases found : headerPart buffer with
  | none => simp [nextFrame, found] at complete
  | some header =>
      have bounds := header_part_length found
      rw [next_frame_of_header found] at complete
      split at complete
      · cases complete
      · cases complete
      · split at complete
        · cases complete
        · cases complete
          omega

/-- Every finding but "incomplete" is final: later bytes do not revise it. -/
theorem next_frame_append {buffer : Bytes} {result : Except NumberError Frame} (more : Bytes)
    (found : nextFrame buffer = result) (settled : result ≠ .ok .incomplete) :
    nextFrame (buffer ++ more) = result := by
  cases located : headerPart buffer with
  | none => exact absurd (by simp [← found, nextFrame, located]) settled
  | some header =>
      rw [next_frame_of_header located] at found
      rw [next_frame_of_header (header_part_append more located)]
      subst found
      split at settled
      · rfl
      · rfl
      · split at settled
        · exact absurd rfl settled
        · rename_i enough
          rw [if_neg enough, if_neg (by simp only [List.length_append]; omega)]

/-! ## The requests of one call -/

def malformed (request : HttpRequest) : Bool :=
  request.method = [] || request.path = [] || request.version = []

def httpVersion : Bytes := "HTTP/1.1".toList

/-- `close_connection`. -/
def closeConnection (request : HttpRequest) : Bool :=
  request.headers.find? "Connection".toList = some "close".toList

/-- The requests after whose response `handle_read` returns without reading on. -/
def endsConnection (request : HttpRequest) : Bool :=
  malformed request || request.version ≠ httpVersion || closeConnection request

inductive Exit where
  /-- `break`: the rest of the buffer waits for the next read. -/
  | waiting
  /-- 413 for a declared content length above the limit. -/
  | tooLarge
  /-- A response that ends the connection, to the request extracted last. -/
  | closing (fullRequest : Bytes)
  /-- `std::stoul` threw. -/
  | threw (error : NumberError)
  deriving DecidableEq, Repr

structure Batch where
  /-- The requests that are answered with `Connection: keep-alive`. -/
  kept : List Bytes
  exit : Exit
  /-- What is left in `request_buffer_`. -/
  rest : Bytes
  deriving DecidableEq, Repr

def batch (buffer : Bytes) : Batch :=
  match _found : nextFrame buffer with
  | .error error => ⟨[], .threw error, buffer⟩
  | .ok .incomplete => ⟨[], .waiting, buffer⟩
  | .ok .tooLarge => ⟨[], .tooLarge, buffer⟩
  | .ok (.complete size) =>
      if endsConnection (parseRequest (buffer.take size)) then
        ⟨[], .closing (buffer.take size), buffer.drop size⟩
      else
        let later := batch (buffer.drop size)
        ⟨buffer.take size :: later.kept, later.exit, later.rest⟩
termination_by buffer.length
decreasing_by
  have bounds := next_frame_complete_bounds _found
  simp only [List.length_drop]
  omega

def Exit.extracted : Exit → List Bytes
  | .closing fullRequest => [fullRequest]
  | _ => []

def Batch.extracted (taken : Batch) : List Bytes := taken.kept ++ taken.exit.extracted

section BatchEquations

variable {buffer : Bytes}

theorem batch_threw {error : NumberError} (found : nextFrame buffer = .error error) :
    batch buffer = ⟨[], .threw error, buffer⟩ := by
  rw [batch]
  split <;> simp_all

theorem batch_incomplete (found : nextFrame buffer = .ok .incomplete) :
    batch buffer = ⟨[], .waiting, buffer⟩ := by
  rw [batch]
  split <;> simp_all

theorem batch_too_large (found : nextFrame buffer = .ok .tooLarge) :
    batch buffer = ⟨[], .tooLarge, buffer⟩ := by
  rw [batch]
  split <;> simp_all

theorem batch_closing {size : Nat} (found : nextFrame buffer = .ok (.complete size))
    (ends : endsConnection (parseRequest (buffer.take size)) = true) :
    batch buffer = ⟨[], .closing (buffer.take size), buffer.drop size⟩ := by
  rw [batch]
  split <;> simp_all

theorem batch_kept {size : Nat} (found : nextFrame buffer = .ok (.complete size))
    (keeps : endsConnection (parseRequest (buffer.take size)) = false) :
    batch buffer = ⟨buffer.take size :: (batch (buffer.drop size)).kept,
      (batch (buffer.drop size)).exit, (batch (buffer.drop size)).rest⟩ := by
  rw [batch]
  split <;> simp_all

end BatchEquations

/-- Induction along the turns of the loop. -/
theorem batch_induction {motive : Bytes → Prop}
    (threw : ∀ buffer error, nextFrame buffer = .error error → motive buffer)
    (incomplete : ∀ buffer, nextFrame buffer = .ok .incomplete → motive buffer)
    (tooLarge : ∀ buffer, nextFrame buffer = .ok .tooLarge → motive buffer)
    (closing : ∀ buffer size, nextFrame buffer = .ok (.complete size) →
      endsConnection (parseRequest (buffer.take size)) = true → motive buffer)
    (kept : ∀ buffer size, nextFrame buffer = .ok (.complete size) →
      endsConnection (parseRequest (buffer.take size)) = false →
      motive (buffer.drop size) → motive buffer)
    (buffer : Bytes) : motive buffer := by
  induction length : buffer.length using Nat.strong_induction_on generalizing buffer with
  | _ count ih =>
      cases found : nextFrame buffer with
      | error error => exact threw buffer error found
      | ok frame =>
          cases frame with
          | incomplete => exact incomplete buffer found
          | tooLarge => exact tooLarge buffer found
          | complete size =>
              cases ends : endsConnection (parseRequest (buffer.take size)) with
              | true => exact closing buffer size found ends
              | false =>
                  have bounds := next_frame_complete_bounds found
                  refine kept buffer size found ends (ih (buffer.drop size).length ?_ _ rfl)
                  simp only [List.length_drop]
                  omega

theorem batch_whole {buffer : Bytes} (found : nextFrame buffer = .ok (.complete buffer.length)) :
    (batch buffer).extracted = [buffer] := by
  have nothingLeft : batch [] = ⟨[], .waiting, []⟩ := batch_incomplete rfl
  cases ends : endsConnection (parseRequest (buffer.take buffer.length)) with
  | true =>
      rw [batch_closing found ends, List.take_length]
      rfl
  | false =>
      rw [batch_kept found ends, List.take_length, List.drop_length, nothingLeft]
      rfl

/-- No byte is lost or duplicated: the extracted requests and the rest are the
buffer, cut. -/
theorem batch_partition (buffer : Bytes) :
    (batch buffer).extracted.flatten ++ (batch buffer).rest = buffer := by
  induction buffer using batch_induction with
  | threw buffer error found =>
      simp [batch_threw found, Batch.extracted, Exit.extracted]
  | incomplete buffer found =>
      simp [batch_incomplete found, Batch.extracted, Exit.extracted]
  | tooLarge buffer found =>
      simp [batch_too_large found, Batch.extracted, Exit.extracted]
  | closing buffer size found ends =>
      simp [batch_closing found ends, Batch.extracted, Exit.extracted]
  | kept buffer size found keeps ih =>
      rw [batch_kept found keeps]
      simp only [Batch.extracted, List.cons_append, List.flatten_cons, List.append_assoc] at ih ⊢
      rw [ih, List.take_append_drop]

/-- Cutting a buffer now and its rest together with later bytes is cutting the
longer buffer, unless a closing request was extracted: the loop does not depend
on where the stream was interrupted. -/
theorem batch_append (buffer more : Bytes) (noClose : (batch buffer).exit.extracted = []) :
    batch (buffer ++ more) =
      ⟨(batch buffer).kept ++ (batch ((batch buffer).rest ++ more)).kept,
        (batch ((batch buffer).rest ++ more)).exit,
        (batch ((batch buffer).rest ++ more)).rest⟩ := by
  induction buffer using batch_induction with
  | threw buffer error found => simp [batch_threw found]
  | incomplete buffer found => simp [batch_incomplete found]
  | tooLarge buffer found => simp [batch_too_large found]
  | closing buffer size found ends =>
      simp [batch_closing found ends, Exit.extracted] at noClose
  | kept buffer size found keeps ih =>
      have bounds := next_frame_complete_bounds found
      have sameFrame := next_frame_append more found (by simp)
      have sameTake : (buffer ++ more).take size = buffer.take size :=
        List.take_append_of_le_length bounds.2
      have sameDrop : (buffer ++ more).drop size = buffer.drop size ++ more :=
        List.drop_append_of_le_length bounds.2
      rw [batch_kept found keeps] at noClose
      rw [batch_kept sameFrame (by rw [sameTake]; exact keeps), sameTake, sameDrop, ih noClose,
        batch_kept found keeps]
      rfl

end RestfulWebserver.Session
