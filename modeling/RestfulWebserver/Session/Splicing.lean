import Mathlib.Data.List.ReduceOption
import RestfulWebserver.Session.Readers

/-!
# Which requests are made of adjacent bytes

Requests are cut from the front of `request_buffer_`, and chunks are put at its
end. The size check drops a chunk but keeps what is buffered, and the write of
its 413 is followed by another read: a partial request in the buffer is then
completed by bytes that did not follow it on the connection.
-/

namespace RestfulWebserver.Session

open RestfulWebserver.Library RestfulWebserver.Http

/-- The extracted requests are segments of the received stream. -/
def RequestsContiguous (state : State) : Prop := Segments state.requests state.received

def held (state : State) : List Bytes := state.reads.reduceOption

/-- A session whose reads complete one at a time: no bytes arrive before those
that arrived earlier have been handled. -/
def stepInTurn (server : Server) (state : State) : Event → Option State
  | .arrive index chunk =>
      if held state = [] then step server state (.arrive index chunk) else none
  | event => step server state event

/-- The front of the buffer is a header block that is never taken out. -/
def Refused (buffer : Bytes) : Prop :=
  nextFrame buffer = .ok .tooLarge ∨ ∃ error, nextFrame buffer = .error error

/-- The buffer does not end in a partial request: it is cut into complete
requests up to its end, or up to a header block that is never taken out. -/
inductive NoPartial : Bytes → Prop where
  | empty : NoPartial []
  | refused (buffer : Bytes) (never : Refused buffer) : NoPartial buffer
  | request (buffer : Bytes) (size : Nat) (found : nextFrame buffer = .ok (.complete size))
      (later : NoPartial (buffer.drop size)) : NoPartial buffer

def DropsCleanly (state : State) : Event → Prop
  | .readDone index => ∀ chunk, state.reads[index]? = some (some chunk) →
      maxRequestSize < state.requestBuffer.length + chunk.length → NoPartial state.requestBuffer
  | _ => True

/-- The buffer is what remains of a part of the stream in which bytes are
missing only where no request can notice it. -/
inductive Remains : Bytes → Bytes → Prop where
  | all (buffer : Bytes) : Remains buffer buffer
  | stuck (buffer stream : Bytes) (never : Refused buffer) : Remains buffer stream
  | request (buffer stream : Bytes) (size : Nat)
      (found : nextFrame buffer = .ok (.complete size))
      (later : Remains (buffer.drop size) stream) : Remains buffer (buffer.take size ++ stream)
  | skip (buffer skipped stream : Bytes) (later : Remains buffer stream) :
      Remains buffer (skipped ++ stream)

theorem refused_append {buffer : Bytes} (more : Bytes) (never : Refused buffer) :
    Refused (buffer ++ more) := by
  rcases never with large | ⟨error, threw⟩
  · exact Or.inl (next_frame_append more large (by simp))
  · exact Or.inr ⟨error, next_frame_append more threw (by simp)⟩

theorem not_refused_of_complete {buffer : Bytes} {size : Nat}
    (found : nextFrame buffer = .ok (.complete size)) : ¬ Refused buffer := by
  intro never
  simp [Refused, found] at never

theorem remains_append {buffer stream : Bytes} (more : Bytes) (remains : Remains buffer stream) :
    Remains (buffer ++ more) (stream ++ more) := by
  induction remains with
  | all buffer => exact .all _
  | stuck buffer stream never => exact .stuck _ _ (refused_append more never)
  | request buffer stream size found later ih =>
      have bounds := next_frame_complete_bounds found
      have same := next_frame_append more found (by simp)
      have sameTake : (buffer ++ more).take size = buffer.take size :=
        List.take_append_of_le_length bounds.2
      have sameDrop : (buffer ++ more).drop size = buffer.drop size ++ more :=
        List.drop_append_of_le_length bounds.2
      rw [← sameDrop] at ih
      rw [List.append_assoc, ← sameTake]
      exact .request _ _ size same ih
  | skip buffer skipped stream later ih =>
      rw [List.append_assoc]
      exact .skip _ skipped _ ih

/-- Bytes that are dropped behind complete requests are missed by none. -/
theorem remains_drop {buffer stream : Bytes} (chunk : Bytes) (remains : Remains buffer stream)
    (clean : NoPartial buffer) : Remains buffer (stream ++ chunk) := by
  induction remains with
  | all buffer =>
      induction clean with
      | empty => simpa using Remains.skip [] chunk [] (.all [])
      | refused buffer never => exact .stuck _ _ never
      | request buffer size found later ih =>
          have cut : buffer ++ chunk = buffer.take size ++ (buffer.drop size ++ chunk) := by
            rw [← List.append_assoc, List.take_append_drop]
          rw [cut]
          exact .request _ _ size found ih
  | stuck buffer stream never => exact .stuck _ _ never
  | request buffer stream size found later ih =>
      rw [List.append_assoc]
      apply Remains.request _ _ size found
      apply ih
      cases clean with
      | empty =>
          have bounds := next_frame_complete_bounds found
          simp only [List.length_nil] at bounds
          omega
      | refused _ never => exact absurd never (not_refused_of_complete found)
      | request _ other same rest =>
          cases found.symm.trans same
          exact rest
  | skip buffer skipped stream later ih =>
      rw [List.append_assoc]
      exact .skip _ skipped _ (ih clean)

theorem remains_extract {buffer stream : Bytes} {size : Nat} (remains : Remains buffer stream)
    (found : nextFrame buffer = .ok (.complete size)) :
    ∃ skipped rest, stream = skipped ++ (buffer.take size ++ rest) ∧
      Remains (buffer.drop size) rest := by
  induction remains with
  | all buffer => exact ⟨[], buffer.drop size, by simp, .all _⟩
  | stuck buffer stream never => exact absurd never (not_refused_of_complete found)
  | request buffer stream other same later ih =>
      cases found.symm.trans same
      exact ⟨[], stream, rfl, later⟩
  | skip buffer skipped stream later ih =>
      rcases ih found with ⟨early, rest, split, remains⟩
      exact ⟨skipped ++ early, rest, by rw [split, List.append_assoc], remains⟩

theorem remains_batch {buffer stream : Bytes} (remains : Remains buffer stream) :
    ∃ used rest, stream = used ++ rest ∧ Segments (batch buffer).extracted used ∧
      Remains (batch buffer).rest rest := by
  induction buffer using batch_induction generalizing stream with
  | threw buffer error found =>
      rw [batch_threw found]
      exact ⟨[], stream, rfl, trivial, remains⟩
  | incomplete buffer found =>
      rw [batch_incomplete found]
      exact ⟨[], stream, rfl, trivial, remains⟩
  | tooLarge buffer found =>
      rw [batch_too_large found]
      exact ⟨[], stream, rfl, trivial, remains⟩
  | closing buffer size found ends =>
      rcases remains_extract remains found with ⟨skipped, rest, split, later⟩
      rw [batch_closing found ends]
      refine ⟨skipped ++ buffer.take size, rest, by rw [split, List.append_assoc], ?_, later⟩
      exact ⟨skipped, [], by rw [List.append_nil], trivial⟩
  | kept buffer size found keeps ih =>
      rcases remains_extract remains found with ⟨skipped, rest, split, later⟩
      rcases ih later with ⟨used, last, splitRest, segments, remainsLast⟩
      rw [batch_kept found keeps]
      refine ⟨skipped ++ (buffer.take size ++ used), last, ?_, ?_, remainsLast⟩
      · simp only [split, splitRest, List.append_assoc]
      · exact ⟨skipped, used, rfl, segments⟩

/-! ## Chunks that have arrived -/

theorem split_at_index {Item : Type} {items : List Item} {index : Nat} {item : Item}
    (present : items[index]? = some item) :
    items = items.take index ++ item :: items.drop (index + 1) := by
  rcases List.getElem?_eq_some_iff.mp present with ⟨inside, same⟩
  rw [← same, List.getElem_cons_drop, List.take_append_drop]

theorem held_erase_waiting {reads : List (Option Bytes)} {index : Nat}
    (waits : reads[index]? = some none) :
    (reads.eraseIdx index).reduceOption = reads.reduceOption := by
  rw [List.eraseIdx_eq_take_drop_succ]
  conv => rhs; rw [split_at_index waits]
  simp [List.reduceOption_append]

theorem held_of_single {reads : List (Option Bytes)} {index : Nat} {chunk : Bytes}
    (ready : reads[index]? = some (some chunk)) (few : reads.reduceOption.length ≤ 1) :
    reads.reduceOption = [chunk] ∧ (reads.eraseIdx index).reduceOption = [] := by
  have shape : reads.reduceOption =
      (reads.take index).reduceOption ++ chunk :: (reads.drop (index + 1)).reduceOption := by
    conv => lhs; rw [split_at_index ready]
    simp [List.reduceOption_append]
  rw [shape] at few ⊢
  simp only [List.length_append, List.length_cons] at few
  have noneBefore : (reads.take index).reduceOption = [] :=
    List.length_eq_zero_iff.mp (by omega)
  have noneAfter : (reads.drop (index + 1)).reduceOption = [] :=
    List.length_eq_zero_iff.mp (by omega)
  rw [List.eraseIdx_eq_take_drop_succ, List.reduceOption_append, noneBefore, noneAfter]
  exact ⟨rfl, rfl⟩

theorem held_set {reads : List (Option Bytes)} {index : Nat} (chunk : Bytes)
    (waits : reads[index]? = some none) (free : reads.reduceOption = []) :
    (reads.set index (some chunk)).reduceOption = [chunk] := by
  rcases List.getElem?_eq_some_iff.mp waits with ⟨inside, _⟩
  have parts : (reads.take index).reduceOption ++ (reads.drop (index + 1)).reduceOption = [] := by
    rw [← List.reduceOption_append, ← List.eraseIdx_eq_take_drop_succ, held_erase_waiting waits,
      free]
  rcases List.append_eq_nil_iff.mp parts with ⟨noneBefore, noneAfter⟩
  rw [List.set_eq_take_append_cons_drop, if_pos inside, List.reduceOption_append,
    List.reduceOption_cons_of_some, noneBefore, noneAfter]
  rfl

theorem exit_reads_held (exit : Exit) : (exitReads exit).reduceOption = [] := by
  cases exit <;> rfl

/-- What a run preserves: the stream is made of what the
requests were cut from, what the buffer remains of, and the chunk that waits in
`data_`. -/
structure Adjacent (state : State) : Prop where
  single : (held state).length ≤ 1
  intact : ∀ chunk ∈ held state, state.data.take chunk.length = chunk
  stream : ∃ consumed current, state.received = consumed ++ current ++ (held state).flatten ∧
    Segments state.requests consumed ∧ Remains state.requestBuffer current

theorem contiguous_of_adjacent {state : State} (adjacent : Adjacent state) :
    RequestsContiguous state := by
  rcases adjacent.stream with ⟨consumed, current, received, segments, _⟩
  rw [RequestsContiguous, received, List.append_assoc]
  exact segments_extend _ segments

theorem adjacent_frame {state next : State} (adjacent : Adjacent state)
    (sameHeld : held next = held state) (sameData : next.data = state.data)
    (sameReceived : next.received = state.received) (sameRequests : next.requests = state.requests)
    (sameBuffer : next.requestBuffer = state.requestBuffer) : Adjacent next := by
  constructor
  · rw [sameHeld]
    exact adjacent.single
  · rw [sameHeld, sameData]
    exact adjacent.intact
  · rw [sameHeld, sameReceived, sameRequests, sameBuffer]
    exact adjacent.stream

theorem adjacent_arrive {state : State} {index : Nat} {chunk : Bytes} (adjacent : Adjacent state)
    (waits : state.reads[index]? = some none) (free : held state = []) :
    Adjacent { state with
      data := fill state.data chunk
      reads := state.reads.set index (some chunk)
      received := state.received ++ chunk } := by
  have arrived := held_set chunk waits free
  rcases adjacent.stream with ⟨consumed, current, received, segments, remains⟩
  constructor
  · simp [held, arrived]
  · intro other member
    simp only [held, arrived, List.mem_singleton] at member
    subst member
    simp [fill]
  · refine ⟨consumed, current, ?_, segments, remains⟩
    rw [free] at received
    simp [held, arrived, received]

theorem adjacent_oversize {state : State} {index : Nat} {chunk : Bytes}
    (adjacent : Adjacent state) (ready : state.reads[index]? = some (some chunk))
    (clean : NoPartial state.requestBuffer) :
    Adjacent (respondOversize { state with reads := state.reads.eraseIdx index }) := by
  rcases held_of_single ready adjacent.single with ⟨only, noneLeft⟩
  rcases adjacent.stream with ⟨consumed, current, received, segments, remains⟩
  constructor
  · simp [held, respondOversize, noneLeft]
  · intro other member
    simp [held, respondOversize, noneLeft] at member
  · refine ⟨consumed, current ++ chunk, ?_, segments, remains_drop chunk remains clean⟩
    simp [held, respondOversize, noneLeft, received, only]

theorem adjacent_batch {server : Server} {state : State} {index : Nat} {chunk : Bytes}
    (adjacent : Adjacent state) (ready : state.reads[index]? = some (some chunk)) (escapes : Nat) :
    Adjacent { afterBatch server (appended state index chunk)
        (batch (appended state index chunk).requestBuffer) with escaped := escapes } := by
  rcases held_of_single ready adjacent.single with ⟨only, noneLeft⟩
  rcases adjacent.stream with ⟨consumed, current, received, segments, remains⟩
  have chunkInData : state.data.take chunk.length = chunk := by
    apply adjacent.intact
    rw [held, only]
    exact List.mem_singleton_self chunk
  have extended := remains_append chunk remains
  rcases remains_batch extended with ⟨used, rest, split, cut, remainsRest⟩
  have noneHeld : ((appended state index chunk).reads ++ exitReads
      (batch (appended state index chunk).requestBuffer).exit).reduceOption = [] := by
    rw [List.reduceOption_append, exit_reads_held, List.append_nil]
    exact noneLeft
  constructor
  · simp only [held, afterBatch, writeResponses, noneHeld]
    simp
  · intro other member
    simp only [held, afterBatch, writeResponses, noneHeld] at member
    cases member
  · refine ⟨consumed ++ used, rest, ?_, ?_, ?_⟩
    · simp only [held, afterBatch, writeResponses, noneHeld]
      simp [appended, received, held, only, ← split]
    · simp only [afterBatch, writeResponses, appended, chunkInData]
      exact segments_append segments cut
    · simp only [afterBatch, writeResponses, appended, chunkInData]
      exact remainsRest

/-- The step lemma. -/
theorem adjacent_step {server : Server} {state next : State} {event : Event}
    (stepped : stepInTurn server state event = some next) (adjacent : Adjacent state)
    (clean : DropsCleanly state event) : Adjacent next := by
  have inTurn : ∀ index chunk, event = .arrive index chunk → held state = [] := by
    intro index chunk arrives
    subst arrives
    simp only [stepInTurn] at stepped
    split at stepped
    · assumption
    · cases stepped
  have plain : step server state event = some next := by
    cases event with
    | arrive index chunk => simpa [stepInTurn, inTurn index chunk rfl] using stepped
    | _ => exact stepped
  rcases step_effect plain with ⟨live, effect⟩
  cases effect with
  | arrive index chunk waits positive bounded =>
      exact adjacent_arrive adjacent waits (inTurn index chunk rfl)
  | oversize index chunk ready exceeds =>
      exact adjacent_oversize adjacent ready (clean chunk ready exceeds)
  | batch index chunk ready fits taken cut =>
      subst cut
      exact adjacent_batch adjacent ready _
  | readError index waits =>
      have same := held_erase_waiting waits
      apply adjacent_frame adjacent <;> simp only [safeDelete, held] <;> split_ifs <;>
        first | rfl | exact same
  | transmit index junk write pending unsent => exact adjacent_frame adjacent rfl rfl rfl rfl rfl
  | writeOpen index write pending sent =>
      apply adjacent_frame adjacent
      · simp [held, startRead, List.reduceOption_append]
      all_goals rfl
  | writeClosed index write pending sent =>
      apply adjacent_frame adjacent <;> simp only [safeDelete, held] <;> split_ifs <;> rfl
  | writeError index write pending =>
      apply adjacent_frame adjacent <;> simp only [safeDelete, held] <;> split_ifs <;> rfl

/-- In a run in which no chunk is dropped behind a partial request, the
extracted requests are segments of the stream. -/
theorem requests_are_segments (server : Server) (events : List Event)
    (clean : EachStep (stepInTurn server) DropsCleanly start events) :
    Throughout (stepInTurn server) RequestsContiguous start events := by
  have initial : Adjacent start := by
    constructor
    · simp [held, start, startRead, constructed]
    · simp [held, start, startRead, constructed]
    · exact ⟨[], [], rfl, trivial, .all []⟩
  have adjacent : Throughout (stepInTurn server) Adjacent start events := by
    apply throughout_of_each_step initial _ clean
    intro state event next holds condition stepped
    exact adjacent_step stepped holds condition
  intro before after middle split reached
  exact contiguous_of_adjacent (adjacent before after middle split reached)

def cutsUp : Nat → Bytes → Bool
  | 0, buffer => buffer = []
  | turns + 1, buffer =>
      buffer = [] || match nextFrame buffer with
        | .ok (.complete size) => cutsUp turns (buffer.drop size)
        | .ok .incomplete => false
        | _ => true

theorem no_partial_of_cuts_up {turns : Nat} {buffer : Bytes} (cuts : cutsUp turns buffer = true) :
    NoPartial buffer := by
  induction turns generalizing buffer with
  | zero =>
      rw [of_decide_eq_true cuts]
      exact .empty
  | succ turns ih =>
      rw [cutsUp, Bool.or_eq_true] at cuts
      rcases cuts with nothing | cuts
      · rw [of_decide_eq_true nothing]
        exact .empty
      · split at cuts
        · rename_i size found
          exact .request buffer size found (ih cuts)
        · cases cuts
        · rename_i notComplete notIncomplete
          apply NoPartial.refused
          cases found : nextFrame buffer with
          | error error => exact Or.inr ⟨error, found⟩
          | ok frame =>
              cases frame with
              | complete size => exact absurd found (notComplete size)
              | incomplete => exact absurd found notIncomplete
              | tooLarge => exact Or.inl found

def dropsCleanly (state : State) : Event → Bool
  | .readDone index =>
      match state.reads[index]? with
      | some (some chunk) =>
          state.requestBuffer.length + chunk.length ≤ maxRequestSize ||
            cutsUp 10 state.requestBuffer
      | _ => true
  | _ => true

theorem drops_cleanly_of_check (state : State) (event : Event)
    (check : dropsCleanly state event = true) : DropsCleanly state event := by
  cases event with
  | readDone index =>
      intro chunk ready exceeds
      simp only [dropsCleanly, ready, Bool.or_eq_true, decide_eq_true_eq] at check
      rcases check with fits | cuts
      · omega
      · exact no_partial_of_cuts_up cuts
  | _ => trivial

def answered (chunk : Bytes) : List Event :=
  [.arrive 0 chunk, .readDone 0, .transmit 0 [], .writeDone 0 true]

def largeGet : Bytes :=
  "GET / HTTP/1.1\r\nConnection: close\r\nContent-Length: 920\r\n\r\n".toList ++
    List.replicate 920 'b'

/-- Each read takes one request out and brings a larger one, until the ninth is
dropped behind those that are left. -/
def droppedBehindWhole : List Event :=
  answered (List.replicate 10 closingGet).flatten ++
    (List.replicate 9 (answered largeGet)).flatten ++ answered closingGet

theorem requests_are_segments_dropped :
    ∃ state, run (stepInTurn emptyServer) start droppedBehindWhole = some state ∧
      state.requests.length = 10 ∧
      state.responses.countP (fun response => response.text = errorResponse) = 1 ∧
      RequestsContiguous state := by
  have counted : (run (stepInTurn emptyServer) start droppedBehindWhole).map
      (fun state => (state.requests.length,
        state.responses.countP fun response => response.text = errorResponse)) =
      some (10, 1) := by
    decide +kernel
  have clean : stepsMeet (stepInTurn emptyServer) dropsCleanly start droppedBehindWhole = true := by
    decide +kernel
  obtain ⟨state, ran, counts⟩ := Option.map_eq_some_iff.mp counted
  obtain ⟨ten, one⟩ := Prod.mk.inj counts
  have contiguous := requests_are_segments emptyServer droppedBehindWhole
    (each_step_of_check drops_cleanly_of_check clean)
  exact ⟨state, ran, ten, one, contiguous _ [] state (List.append_nil _).symm ran⟩

/-! ## A spliced request -/

/-- A session that has started no response and waits for bytes. -/
structure Idle (state : State) (buffer received : Bytes) : Prop where
  live : state.deleted = false
  reads : state.reads = [none]
  writes : state.writes = []
  requests : state.requests = []
  buffer : state.requestBuffer = buffer
  received : state.received = received

theorem idle_start : Idle start [] [] := by
  constructor <;> rfl

section IdleSteps

variable {server : Server} {state : State} {buffer received chunk : Bytes}

theorem idle_keeps (idle : Idle state buffer received) (positive : 0 < chunk.length)
    (bounded : chunk.length ≤ maxLength) (fits : buffer.length + chunk.length ≤ maxRequestSize)
    (incomplete : nextFrame (buffer ++ chunk) = .ok .incomplete) :
    ∃ next, run (stepInTurn server) state [.arrive 0 chunk, .readDone 0] = some next ∧
      Idle next (buffer ++ chunk) (received ++ chunk) := by
  rcases idle with ⟨live, reads, writes, requests, buffered, stream⟩
  have chunkAtFront : (fill state.data chunk).take chunk.length = chunk := by
    simp [fill]
  have notOver : ¬ maxRequestSize < buffer.length + chunk.length := by omega
  simp [run, stepInTurn, step, held, live, reads, positive, bounded, handleRead, countEscape,
    buffered, notOver, read_loop_eq, chunkAtFront, batch_incomplete incomplete, afterBatch,
    batchResponses, keptResponses, exitResponses, write_responses_nil, Batch.extracted,
    Exit.extracted, exitReads, Exit.error]
  constructor <;> simp [writes, requests, stream]

/-- A chunk that the size check drops leaves the buffer as it was, and once the
413 is written the session reads on. -/
theorem idle_drops (idle : Idle state buffer received) (positive : 0 < chunk.length)
    (bounded : chunk.length ≤ maxLength) (exceeds : maxRequestSize < buffer.length + chunk.length) :
    ∃ next, run (stepInTurn server) state
        [.arrive 0 chunk, .readDone 0, .transmit 0 [], .writeDone 0 true] = some next ∧
      Idle next buffer (received ++ chunk) := by
  rcases idle with ⟨live, reads, writes, requests, buffered, stream⟩
  simp [run, stepInTurn, step, held, live, reads, writes, positive, bounded, handleRead,
    countEscape, buffered, exceeds, respondOversize, handleWrite, startRead]
  constructor <;> simp [requests, stream]

theorem idle_completes (idle : Idle state buffer received) (positive : 0 < chunk.length)
    (bounded : chunk.length ≤ maxLength) (fits : buffer.length + chunk.length ≤ maxRequestSize)
    (complete : nextFrame (buffer ++ chunk) = .ok (.complete (buffer ++ chunk).length)) :
    ∃ next, run (stepInTurn server) state [.arrive 0 chunk, .readDone 0] = some next ∧
      next.requests = [buffer ++ chunk] ∧ next.received = received ++ chunk := by
  rcases idle with ⟨live, reads, writes, requests, buffered, stream⟩
  have chunkAtFront : (fill state.data chunk).take chunk.length = chunk := by
    simp [fill]
  have notOver : ¬ maxRequestSize < buffer.length + chunk.length := by omega
  have taken := batch_whole complete
  simp [run, stepInTurn, step, held, live, reads, positive, bounded, handleRead, countEscape,
    buffered, notOver, read_loop_eq, chunkAtFront, afterBatch, writeResponses, taken, requests,
    stream]

theorem idle_keeps_all {chunks : List Bytes} (idle : Idle state buffer received)
    (bounds : ∀ chunk ∈ chunks, 0 < chunk.length ∧ chunk.length ≤ maxLength)
    (fits : buffer.length + chunks.flatten.length ≤ maxRequestSize)
    (incomplete : nextFrame (buffer ++ chunks.flatten) = .ok .incomplete) :
    ∃ next, run (stepInTurn server) state
        (chunks.flatMap fun chunk => [.arrive 0 chunk, .readDone 0]) = some next ∧
      Idle next (buffer ++ chunks.flatten) (received ++ chunks.flatten) := by
  induction chunks generalizing state buffer received with
  | nil => exact ⟨state, rfl, by simpa using idle⟩
  | cons chunk chunks ih =>
      rw [List.flatten_cons, List.length_append] at fits
      rw [List.flatten_cons, ← List.append_assoc] at incomplete
      have firstIncomplete : nextFrame (buffer ++ chunk) = .ok .incomplete := by
        by_contra settled
        have same := next_frame_append chunks.flatten rfl settled
        exact settled (same.symm.trans incomplete)
      have chunkBounds := bounds chunk List.mem_cons_self
      rcases @idle_keeps server _ _ _ _ idle chunkBounds.1 chunkBounds.2 (by omega)
        firstIncomplete with ⟨middle, reached, idleMiddle⟩
      rcases ih idleMiddle (fun other member => bounds other (List.mem_cons_of_mem _ member))
        (by rw [List.length_append]; omega) incomplete with ⟨last, ran, idleLast⟩
      refine ⟨last, ?_, by simpa using idleLast⟩
      rw [List.flatMap_cons, run_append, reached]
      exact ran

/-- Chunks that leave a request incomplete, one that the size check drops, and
one that completes the request. -/
def splicingEvents (chunks : List Bytes) (dropped last : Bytes) : List Event :=
  chunks.flatMap (fun chunk => [.arrive 0 chunk, .readDone 0]) ++
    ([.arrive 0 dropped, .readDone 0, .transmit 0 [], .writeDone 0 true] ++
      [.arrive 0 last, .readDone 0])

theorem idle_splices {chunks : List Bytes} {dropped last : Bytes}
    (bounds : ∀ chunk ∈ chunks ++ [dropped, last], 0 < chunk.length ∧ chunk.length ≤ maxLength)
    (incomplete : nextFrame chunks.flatten = .ok .incomplete)
    (exceeds : maxRequestSize < chunks.flatten.length + dropped.length)
    (fits : chunks.flatten.length + last.length ≤ maxRequestSize)
    (complete : nextFrame (chunks.flatten ++ last) =
      .ok (.complete (chunks.flatten ++ last).length)) :
    ∃ state, run (stepInTurn server) start (splicingEvents chunks dropped last) = some state ∧
      state.requests = [chunks.flatten ++ last] ∧
      state.received = chunks.flatten ++ dropped ++ last := by
  have chunkBounds : ∀ chunk ∈ chunks, 0 < chunk.length ∧ chunk.length ≤ maxLength := by
    intro chunk member
    exact bounds chunk (List.mem_append_left _ member)
  have droppedBounds := bounds dropped (by simp)
  have lastBounds := bounds last (by simp)
  rcases @idle_keeps_all server _ _ _ _ idle_start chunkBounds
    (by rw [List.length_nil]; omega) incomplete with ⟨partly, reachedPartly, idlePartly⟩
  rw [List.nil_append] at idlePartly
  rcases @idle_drops server _ _ _ _ idlePartly droppedBounds.1 droppedBounds.2 exceeds with
    ⟨afterDrop, reachedDrop, idleDrop⟩
  rcases @idle_completes server _ _ _ _ idleDrop lastBounds.1 lastBounds.2 fits complete with
    ⟨state, ran, requests, received⟩
  refine ⟨state, ?_, requests, received⟩
  rw [splicingEvents, run_append, reachedPartly, Option.bind_some, run_append, reachedDrop]
  exact ran

end IdleSteps

def postHeader : Bytes := "POST / HTTP/1.1\r\nContent-Length: 8000\r\n\r\n".toList

def bodyChunks : List Bytes := List.replicate 8 (List.replicate 990 'a')

def droppedChunk : Bytes := List.replicate 1000 'b'

def lastChunk : Bytes := List.replicate 80 'c'

theorem post_frame (body : Bytes) : nextFrame (postHeader ++ body) =
    .ok (if body.length < 8000 then .incomplete else .complete 8041) := by
  have header : headerPart (postHeader ++ body) = some postHeader := by
    apply header_part_append
    decide +kernel
  have declared : declaredLength postHeader = .ok (some 8000) := by decide +kernel
  have length : postHeader.length = 41 := rfl
  rw [next_frame_of_header header, declared]
  simp only [List.length_append, length]
  split_ifs <;> first | rfl | omega

theorem body_flatten : bodyChunks.flatten = List.replicate 7920 'a' := by
  rw [bodyChunks, List.flatten_replicate_replicate]

theorem splicing_outcome (server : Server) :
    ∃ state, run (stepInTurn server) start
        (splicingEvents (postHeader :: bodyChunks) droppedChunk lastChunk) = some state ∧
      state.requests = [(postHeader :: bodyChunks).flatten ++ lastChunk] ∧
      state.received = (postHeader :: bodyChunks).flatten ++ droppedChunk ++ lastChunk := by
  have headerLength : postHeader.length = 41 := rfl
  have bodyLength : bodyChunks.flatten.length = 7920 := by
    rw [body_flatten, List.length_replicate]
  have droppedLength : droppedChunk.length = 1000 := by
    rw [droppedChunk, List.length_replicate]
  have lastLength : lastChunk.length = 80 := by
    rw [lastChunk, List.length_replicate]
  have limit : maxRequestSize = 8192 := rfl
  have chunkLimit : maxLength = 1024 := rfl
  have buffered : (postHeader :: bodyChunks).flatten.length = 7961 := by
    rw [List.flatten_cons, List.length_append, headerLength, bodyLength]
  have total : ((postHeader :: bodyChunks).flatten ++ lastChunk).length = 8041 := by
    rw [List.length_append, buffered, lastLength]
  apply idle_splices
  · intro chunk member
    simp only [List.mem_append, List.mem_cons, List.not_mem_nil, or_false] at member
    rcases member with (rfl | inBody) | rfl | rfl
    · omega
    · rw [List.eq_of_mem_replicate inBody, List.length_replicate]
      omega
    · omega
    · omega
  · rw [List.flatten_cons, post_frame, bodyLength]
    rfl
  · omega
  · omega
  · rw [total, List.flatten_cons, List.append_assoc, post_frame, List.length_append, bodyLength,
      lastLength]
    rfl

/-- A request from which bytes were dropped is no segment, if it begins with a
letter that does not occur behind its front and the bytes differ from those
that took their place. -/
theorem gap_not_contiguous {front dropped last : Bytes} {letter first other : Char}
    (begins : front.head? = some letter) (notDropped : letter ∉ dropped)
    (notLast : letter ∉ last) (droppedBegins : dropped.head? = some first)
    (lastBegins : last.head? = some other) (differs : first ≠ other) :
    ¬ Segments [front ++ last] (front ++ dropped ++ last) := by
  rintro ⟨skipped, rest, split, _⟩
  have letters := congrArg (List.count letter) split
  simp only [List.count_append, List.count_eq_zero.mpr notDropped,
    List.count_eq_zero.mpr notLast] at letters
  have noSkip : skipped = [] := by
    cases skipped with
    | nil => rfl
    | cons first later =>
        have heads := congrArg List.head? split
        simp only [List.append_assoc, List.head?_append, begins, Option.some_or, List.cons_append,
          List.head?_cons, Option.some.injEq] at heads
        subst heads
        rw [List.count_cons_self] at letters
        omega
  rw [noSkip, List.nil_append, List.append_assoc, List.append_assoc,
    List.append_cancel_left_eq] at split
  have heads := congrArg List.head? split
  simp only [List.head?_append, droppedBegins, lastBegins, Option.some_or,
    Option.some.injEq] at heads
  exact differs heads

/-- The handler is given a request whose bytes were not adjacent: 1000 bytes
between them were dropped. -/
theorem request_spliced_after_drop :
    ¬ ∀ (server : Server) (events : List Event),
      Throughout (stepInTurn server) RequestsContiguous start events := by
  intro contiguous
  rcases splicing_outcome emptyServer with ⟨state, reached, requests, received⟩
  have segments := contiguous emptyServer _ _ [] state (List.append_nil _).symm reached
  rw [RequestsContiguous, requests, received] at segments
  have begins : (postHeader :: bodyChunks).flatten.head? = some 'P' := rfl
  have droppedBegins : droppedChunk.head? = some 'b' := rfl
  have lastBegins : lastChunk.head? = some 'c' := rfl
  apply gap_not_contiguous begins _ _ droppedBegins lastBegins (by decide) segments
  · intro member
    cases List.eq_of_mem_replicate member
  · intro member
    cases List.eq_of_mem_replicate member

end RestfulWebserver.Session
