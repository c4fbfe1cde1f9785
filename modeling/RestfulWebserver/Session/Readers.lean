import RestfulWebserver.Session.Lifetime

/-!
# How many reads share the receive buffer

Reads are started by `start`, by the end of `handle_read` and by `handle_write`.
After a keep-alive answer both handlers start one, so a second read is
outstanding on `data_` as soon as the answer's write completes.
-/

namespace RestfulWebserver.Session

open RestfulWebserver.Library RestfulWebserver.Http

/-- At most one read is outstanding, and the bytes that arrived for it are still
the ones `handle_read` will find in `data_`. -/
structure OneReader (state : State) : Prop where
  single : state.reads.length ≤ 1
  intact : ∀ chunk, some chunk ∈ state.reads → state.data.take chunk.length = chunk

def WriteSucceeds : Event → Prop
  | .writeDone _ isOpen => isOpen = true
  | _ => False

def ReadsBalance (state : State) : Prop :=
  state.alreadyDeleted = state.deleted ∧
    (state.deleted = false →
      state.reads.length + closingAnswers state + state.escaped = 1 + state.writesDone)

theorem reads_balance_effect {server : Server} {state next : State} {event : Event}
    (live : state.deleted = false) (effect : Effect server state event next)
    (balance : ReadsBalance state) : ReadsBalance next := by
  obtain ⟨flag, count⟩ := balance
  have unset : state.alreadyDeleted = false := flag.trans live
  have count := count live
  cases effect with
  | arrive index chunk waits positive bounded =>
      refine ⟨flag, fun _ => ?_⟩
      simpa [closingAnswers] using count
  | oversize index chunk ready exceeds =>
      have erased := length_erase_of_some ready
      refine ⟨flag, fun _ => ?_⟩
      simp only [respondOversize, closingAnswers, List.countP_append, List.countP_singleton,
        if_true] at count ⊢
      omega
  | batch index chunk ready fits taken cut =>
      have erased := length_erase_of_some ready
      have exits := exit_balance server (state.responses.length + taken.kept.length) taken.exit
      have closings := batch_closing_count server state.responses.length taken
      refine ⟨flag, fun _ => ?_⟩
      simp only [afterBatch, writeResponses, appended, closingAnswers, List.length_append,
        List.countP_append] at count ⊢
      omega
  | transmit index junk write pending unsent =>
      refine ⟨flag, fun _ => ?_⟩
      simpa [closingAnswers] using count
  | writeOpen index write pending sent =>
      refine ⟨flag, fun _ => ?_⟩
      simp only [startRead, closingAnswers, List.length_append, List.length_singleton] at count ⊢
      omega
  | readError index waits =>
      constructor <;> simp [safeDelete, unset]
  | writeClosed index write pending sent =>
      constructor <;> simp [safeDelete, unset]
  | writeError index write pending =>
      constructor <;> simp [safeDelete, unset]

theorem reads_balance_run {server : Server} {events : List Event} {state : State}
    (ran : run (step server) start events = some state) : ReadsBalance state := by
  have initial : ReadsBalance start := ⟨rfl, fun _ => rfl⟩
  apply invariant_of_run initial _ ran
  intro before event next balance stepped
  obtain ⟨live, effect⟩ := step_effect stepped
  exact reads_balance_effect live effect balance

/-- With one read outstanding, erasing a read leaves none. -/
theorem erase_single {reads : List (Option Bytes)} {index : Nat} {read : Option Bytes}
    (single : reads.length ≤ 1) (present : reads[index]? = some read) :
    reads.eraseIdx index = [] := by
  have erased := length_erase_of_some present
  apply List.length_eq_zero_iff.mp
  omega

theorem exit_reads_wait (exit : Exit) :
    (exitReads exit).length ≤ 1 ∧ ∀ chunk, some chunk ∉ exitReads exit := by
  cases exit <;> simp [exitReads]

/-- The step lemma: only a successful write completion can add a second reader. -/
theorem one_reader_effect {server : Server} {state next : State} {event : Event}
    (effect : Effect server state event next) (reader : OneReader state)
    (allowed : WriteSucceeds event → state.reads = []) : OneReader next := by
  obtain ⟨single, intact⟩ := reader
  cases effect with
  | arrive index chunk waits positive bounded =>
      have onlyRead : state.reads = [none] := by
        obtain ⟨inside, _⟩ := List.getElem?_eq_some_iff.mp waits
        obtain ⟨read, reads⟩ := List.length_eq_one_iff.mp
          (show state.reads.length = 1 by omega)
        have first : index = 0 := by omega
        rw [reads, first] at waits
        rw [reads]
        simpa using waits
      have first : index = 0 := by
        obtain ⟨inside, _⟩ := List.getElem?_eq_some_iff.mp waits
        omega
      constructor
      · simpa using single
      · intro other member
        simp only [onlyRead, first, List.set_cons_zero, List.mem_singleton,
          Option.some.injEq] at member
        subst member
        simp [fill]
  | oversize index chunk ready exceeds =>
      have none := erase_single single ready
      constructor <;> simp [respondOversize, none]
  | batch index chunk ready fits taken cut =>
      have none := erase_single single ready
      obtain ⟨few, waits⟩ := exit_reads_wait taken.exit
      constructor
      · simpa [afterBatch, writeResponses, appended, none] using few
      · intro other member
        simp only [afterBatch, writeResponses, appended, none, List.nil_append] at member
        exact absurd member (waits other)
  | readError index waits =>
      have none := erase_single single waits
      constructor <;> simp [safeDelete] <;> split_ifs <;> simp [none]
  | transmit index junk write pending unsent => exact ⟨single, intact⟩
  | writeOpen index write pending sent =>
      have none := allowed rfl
      constructor <;> simp [startRead, none]
  | writeClosed index write pending sent =>
      constructor <;> simp only [safeDelete] <;> split_ifs <;> assumption
  | writeError index write pending =>
      constructor <;> simp only [safeDelete] <;> split_ifs <;> assumption

def CountedReader (state : State) : Prop := OneReader state ∧ ReadsBalance state

/-- The receive buffer has one reader throughout a run exactly when every write
that completes well on an open socket finds more closing answers (an exception
that escaped counts as one) than earlier such completions. -/
theorem one_reader_iff (server : Server) (events : List Event) :
    Throughout (step server) OneReader start events ↔
      EachStep (step server)
        (fun state event => WriteSucceeds event →
          state.writesDone < closingAnswers state + state.escaped)
        start events := by
  constructor
  · intro readers before event after middle next split reached stepped succeeds
    subst split
    obtain ⟨live, effect⟩ := step_effect stepped
    have count := (reads_balance_run reached).2 live
    have single := (throughout_after_step readers reached stepped).single
    cases effect with
    | writeOpen index write pending sent =>
        simp only [startRead, List.length_append, List.length_singleton] at single
        omega
    | writeClosed index write pending sent => cases succeeds
    | _ => exact absurd succeeds id
  · intro each
    have initial : CountedReader start := by
      refine ⟨⟨le_refl 1, ?_⟩, rfl, fun _ => rfl⟩
      intro chunk member
      simp [start, startRead, constructed] at member
    have both : Throughout (step server) CountedReader start events := by
      apply throughout_of_each_step initial _ each
      intro state event next holds condition stepped
      rcases holds with ⟨reader, balance⟩
      rcases step_effect stepped with ⟨live, effect⟩
      constructor
      · apply one_reader_effect effect reader
        intro succeeds
        have fewer := condition succeeds
        have count := balance.2 live
        apply List.length_eq_zero_iff.mp
        omega
      · exact reads_balance_effect live effect balance
    intro before after middle split reached
    exact (both before after middle split reached).1

/-- One keep-alive request, and its answer is written: two reads into `data_`. -/
theorem two_readers_after_keep_alive :
    ¬ ∀ (server : Server) (events : List Event),
      Throughout (step server) OneReader start events := by
  intro readers
  have outcome : (run (step emptyServer) start
      [.arrive 0 keepAliveGet, .readDone 0, .transmit 0 [], .writeDone 0 true]).map
        (fun state => state.reads.length) = some 2 := by decide +kernel
  obtain ⟨state, reached, count⟩ := Option.map_eq_some_iff.mp outcome
  have single := (readers emptyServer _ _ [] state (List.append_nil _).symm reached).single
  omega

end RestfulWebserver.Session
