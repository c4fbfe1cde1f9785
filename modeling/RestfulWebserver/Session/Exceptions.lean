import RestfulWebserver.Session.Lifetime

/-!
# Exceptions out of the framing loop

`std::stoul` is called on whatever follows `Content-Length:` and nothing catches
what it throws. The header blocks that a call looks at, and the lines of them
that it reads as numbers, are described here without the loop, so the inputs
that bring a worker thread down can be read off the bytes.
-/

namespace RestfulWebserver.Session

open RestfulWebserver.Library RestfulWebserver.Http

/-- The header blocks that one call of `handle_read` gets to: the first one, and
the one after each request that keeps the connection. -/
inductive Reaches : Bytes → Bytes → Prop where
  | front {buffer header : Bytes} (complete : headerPart buffer = some header) :
      Reaches buffer header
  | later {buffer header : Bytes} {size : Nat}
      (complete : nextFrame buffer = .ok (.complete size))
      (keeps : endsConnection (parseRequest (buffer.take size)) = false)
      (next : Reaches (buffer.drop size) header) : Reaches buffer header

/-- What follows the name on each `Content-Length` line, blanks stripped. -/
def lengthValues (lines : List Bytes) : List Bytes :=
  (lines.filter fun line => contentLengthName <+: line).map fun line =>
    (line.drop contentLengthName.length).dropWhile isBlank

def LengthsReadable : List Bytes → Prop
  | [] => True
  | value :: later =>
      StartsWithNumeral value ∧
        ((∀ length, stoul value = .ok length → length ≤ maxContentLength) → LengthsReadable later)

theorem scan_returns_iff (lines : List Bytes) (contentLength : Nat) :
    (∃ result, scanContentLength lines contentLength = .ok result) ↔
      LengthsReadable (lengthValues lines) := by
  induction lines generalizing contentLength with
  | nil => simp [scanContentLength, lengthValues, LengthsReadable]
  | cons line lines ih =>
      by_cases named : contentLengthName <+: line
      · have values : lengthValues (line :: lines) =
            (line.drop contentLengthName.length).dropWhile isBlank :: lengthValues lines := by
          simp [lengthValues, named]
        rw [values, LengthsReadable, ← stoul_returns_iff]
        simp only [scanContentLength, if_pos named]
        cases read : stoul ((line.drop contentLengthName.length).dropWhile isBlank) with
        | error error => simp
        | ok value =>
            by_cases large : maxContentLength < value
            · have tooLong : ¬ ∀ length, (Except.ok value : Except NumberError Nat) = .ok length →
                  length ≤ maxContentLength := fun all => absurd (all value rfl) (by omega)
              simp [large]
            · simp only [if_neg large]
              rw [ih value]
              constructor
              · intro readable
                exact ⟨⟨value, rfl⟩, fun _ => readable⟩
              · rintro ⟨_, readable⟩
                apply readable
                intro length same
                cases same
                omega
      · have values : lengthValues (line :: lines) = lengthValues lines := by
          simp [lengthValues, named]
        rw [values, ← ih contentLength]
        simp only [scanContentLength, if_neg named]

def declaredValues (header : Bytes) : List Bytes := lengthValues (linesUntil blankLine header).1

theorem next_frame_threw_iff (buffer : Bytes) :
    (∃ error, nextFrame buffer = .error error) ↔
      ∃ header, headerPart buffer = some header ∧ ¬ LengthsReadable (declaredValues header) := by
  cases found : headerPart buffer with
  | none => simp [nextFrame, found]
  | some header =>
      simp only [Option.some.injEq, exists_eq_left']
      rw [declaredValues, ← scan_returns_iff _ 0, next_frame_of_header found]
      change _ ↔ ¬ ∃ result, declaredLength header = .ok result
      split
      · rename_i error threw
        simp [threw]
      · rename_i returned
        simp [returned]
      · rename_i length returned
        simp only [returned, Except.ok.injEq, exists_eq', not_true_eq_false, iff_false,
          not_exists]
        intro error
        split_ifs <;> simp

theorem front_readable {buffer header : Bytes} {frame : Frame}
    (found : nextFrame buffer = .ok frame) (complete : headerPart buffer = some header) :
    LengthsReadable (declaredValues header) := by
  by_contra unreadable
  have threw := (next_frame_threw_iff buffer).mpr ⟨header, complete, unreadable⟩
  simp [found] at threw

theorem settled_readable {buffer : Bytes} {frame : Frame}
    (found : nextFrame buffer = .ok frame)
    (stops : ∀ size, frame = .complete size →
      endsConnection (parseRequest (buffer.take size)) = true) :
    ∀ header, Reaches buffer header → LengthsReadable (declaredValues header) := by
  intro header reaches
  cases reaches with
  | front complete => exact front_readable found complete
  | later complete keeps next =>
      rw [found] at complete
      cases complete
      rw [stops _ rfl] at keeps
      cases keeps

/-- A call lets an exception escape exactly when one of the header blocks it
gets to has a value that is no numeral. -/
theorem batch_returns_iff (buffer : Bytes) :
    (batch buffer).exit.error = none ↔
      ∀ header, Reaches buffer header → LengthsReadable (declaredValues header) := by
  induction buffer using batch_induction with
  | threw buffer error found =>
      rcases (next_frame_threw_iff buffer).mp ⟨error, found⟩ with ⟨header, complete, unreadable⟩
      simp only [batch_threw found, Exit.error, reduceCtorEq, false_iff, not_forall]
      exact ⟨header, .front complete, unreadable⟩
  | incomplete buffer found =>
      simp only [batch_incomplete found, Exit.error, true_iff]
      apply settled_readable found
      intro size impossible
      cases impossible
  | tooLarge buffer found =>
      simp only [batch_too_large found, Exit.error, true_iff]
      apply settled_readable found
      intro size impossible
      cases impossible
  | closing buffer size found ends =>
      simp only [batch_closing found ends, Exit.error, true_iff]
      apply settled_readable found
      intro other same
      cases same
      exact ends
  | kept buffer size found keeps ih =>
      rw [batch_kept found keeps]
      simp only
      rw [ih]
      constructor
      · intro readable header reaches
        cases reaches with
        | front complete => exact front_readable found complete
        | later complete _ next =>
            rw [found] at complete
            cases complete
            exact readable header next
      · intro readable header reaches
        exact readable header (.later found keeps reaches)

/-! ## Runs -/

def ReturnsNormally (server : Server) (state : State) : Event → Prop
  | .readDone index => ∀ chunk, state.reads[index]? = some (some chunk) →
      (handleRead server { state with reads := state.reads.eraseIdx index } false
        chunk.length).2 = none
  | _ => True

/-- If the chunk is not dropped for its size, every `Content-Length` value that
the call gets to is a numeral. -/
def LengthsAreNumerals (state : State) : Event → Prop
  | .readDone index => ∀ chunk, state.reads[index]? = some (some chunk) →
      state.requestBuffer.length + chunk.length ≤ maxRequestSize →
      ∀ header, Reaches (state.requestBuffer ++ state.data.take chunk.length) header →
        LengthsReadable (declaredValues header)
  | _ => True

theorem returns_normally_iff (server : Server) (state : State) (event : Event) :
    ReturnsNormally server state event ↔ LengthsAreNumerals state event := by
  cases event with
  | readDone index =>
      apply forall_congr'
      intro chunk
      apply imp_congr_right
      intro _
      by_cases exceeds : maxRequestSize < state.requestBuffer.length + chunk.length
      · have notFits : ¬ state.requestBuffer.length + chunk.length ≤ maxRequestSize := by omega
        simp only [handleRead, Bool.false_eq_true, if_false, if_pos exceeds, true_iff]
        intro fits
        exact absurd fits notFits
      · have fits : state.requestBuffer.length + chunk.length ≤ maxRequestSize := by omega
        simp only [handleRead, Bool.false_eq_true, if_false, if_neg exceeds, read_loop_eq,
          batch_returns_iff, fits, true_imp_iff]
  | _ => exact Iff.rfl

/-- A run brings no worker thread down exactly when every `Content-Length` value
that its reads get to starts with a numeral of an `unsigned long`. -/
theorem no_exception_escapes_iff (server : Server) (events : List Event) :
    EachStep (step server) (ReturnsNormally server) start events ↔
      EachStep (step server) LengthsAreNumerals start events := by
  constructor
  · intro returns before event after middle next split reached stepped
    exact (returns_normally_iff server middle event).mp
      (returns before event after middle next split reached stepped)
  · intro numerals before event after middle next split reached stepped
    exact (returns_normally_iff server middle event).mpr
      (numerals before event after middle next split reached stepped)

def wordLengthGet : Bytes := "GET / HTTP/1.1\r\nContent-Length: abc\r\n\r\n".toList

/-- A `Content-Length` without a digit: `std::invalid_argument` leaves the
handler. -/
theorem word_length_escapes :
    ¬ ∀ (server : Server) (events : List Event),
      EachStep (step server) (ReturnsNormally server) start events := by
  intro returns
  have outcome : (run (step emptyServer) start [.arrive 0 wordLengthGet]).map
      (fun state => (state.reads, (handleRead emptyServer
        { state with reads := state.reads.eraseIdx 0 } false wordLengthGet.length).2,
        (step emptyServer state (.readDone 0)).isSome)) =
      some ([some wordLengthGet], some .invalidArgument, true) := by decide +kernel
  obtain ⟨state, reached, shape⟩ := Option.map_eq_some_iff.mp outcome
  simp only [Prod.mk.injEq] at shape
  obtain ⟨reads, threw, enabled⟩ := shape
  obtain ⟨next, stepped⟩ := Option.isSome_iff_exists.mp enabled
  have returned := returns emptyServer [.arrive 0 wordLengthGet, .readDone 0]
    [.arrive 0 wordLengthGet] (.readDone 0) [] state next rfl reached stepped
    wordLengthGet (by rw [reads]; rfl)
  rw [threw] at returned
  cases returned

end RestfulWebserver.Session
