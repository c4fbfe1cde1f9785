import RestfulWebserver.Session.Lifetime

/-!
# What follows a closing response

Five branches of `handle_read` announce `Connection: close` and return without
reading on. Nothing records the announcement: `handle_write` starts a read after
every write, and a read that was outstanding beforehand is served as usual.
-/

namespace RestfulWebserver.Session

open RestfulWebserver.Library RestfulWebserver.Http

/-- Once a closing response has been started, no further request is dispatched,
no further response started (every dispatch starts one) and no further read. -/
def CloseIsFinal (server : Server) (events : List Event) : Prop :=
  ∀ before later after closed state, events = before ++ (later ++ after) →
    run (step server) start before = some closed → 0 < closingAnswers closed →
    run (step server) closed later = some state →
    state.responses = closed.responses ∧ state.readsStarted = closed.readsStarted

/-- The completions on which the session starts nothing: failures, a write that
finds the socket closed, and a read whose bytes end in an exception at once. -/
def Quiet (state : State) : Event → Prop
  | .readDone index => ∃ chunk, state.reads[index]? = some (some chunk) ∧
      state.requestBuffer.length + chunk.length ≤ maxRequestSize ∧
      ∃ error, nextFrame (state.requestBuffer ++ state.data.take chunk.length) = .error error
  | .writeDone _ isOpen => isOpen = false
  | _ => True

theorem batch_quiet_iff (server : Server) (count : Nat) (buffer : Bytes) :
    (batchResponses server count (batch buffer) = [] ∧ exitReads (batch buffer).exit = []) ↔
      ∃ error, nextFrame buffer = .error error := by
  cases found : nextFrame buffer with
  | error error =>
      simp [batch_threw found, batchResponses, keptResponses, exitResponses, exitReads]
  | ok frame =>
      simp only [reduceCtorEq, exists_false, iff_false]
      rintro ⟨noResponses, noReads⟩
      cases frame with
      | incomplete => simp [batch_incomplete found, exitReads] at noReads
      | tooLarge =>
          simp [batch_too_large found, batchResponses, exitResponses] at noResponses
      | complete size =>
          cases ends : endsConnection (parseRequest (buffer.take size)) with
          | true => simp [batch_closing found ends, batchResponses, exitResponses] at noResponses
          | false => simp [batch_kept found ends, batchResponses, keptResponses] at noResponses

/-- The step lemma: a step starts nothing exactly when its event is quiet. -/
theorem quiet_effect_iff {server : Server} {state next : State} {event : Event}
    (effect : Effect server state event next) :
    (next.responses = state.responses ∧ next.readsStarted = state.readsStarted) ↔
      Quiet state event := by
  cases effect with
  | arrive index chunk waits positive bounded => simp [Quiet]
  | transmit index junk write pending unsent => simp [Quiet]
  | oversize index chunk ready exceeds =>
      simp only [respondOversize, List.append_right_eq_self, Quiet, ready, Option.some.injEq,
        exists_eq_left', List.cons_ne_nil, false_and, false_iff, not_and]
      intro fits
      omega
  | batch index chunk ready fits taken cut =>
      have quiet := batch_quiet_iff server state.responses.length
        (state.requestBuffer ++ state.data.take chunk.length)
      have sameReads : state.readsStarted + (exitReads taken.exit).length = state.readsStarted ↔
          exitReads taken.exit = [] := by
        rw [← List.length_eq_zero_iff]
        omega
      simp only [afterBatch, writeResponses, appended, List.append_right_eq_self, sameReads, Quiet,
        ready, Option.some.injEq, exists_eq_left', fits, true_and]
      rw [cut]
      exact quiet
  | readError index waits =>
      simp only [Quiet, safeDelete, iff_true]
      split_ifs <;> exact ⟨rfl, rfl⟩
  | writeOpen index write pending sent => simp [Quiet, startRead]
  | writeClosed index write pending sent =>
      simp only [Quiet, safeDelete, iff_true]
      split_ifs <;> exact ⟨rfl, rfl⟩
  | writeError index write pending =>
      simp only [Quiet, safeDelete, iff_true]
      split_ifs <;> exact ⟨rfl, rfl⟩

def NothingSince (closed state : State) : Prop :=
  state.responses = closed.responses ∧ state.readsStarted = closed.readsStarted

theorem nothing_since_run {server : Server} {closed state : State} {later : List Event}
    (announced : 0 < closingAnswers closed)
    (each : EachStep (step server)
      (fun state event => 0 < closingAnswers state → Quiet state event) closed later)
    (ran : run (step server) closed later = some state) : NothingSince closed state := by
  have initial : NothingSince closed closed := ⟨rfl, rfl⟩
  apply invariant_of_each_step initial _ later each ran
  intro middle event next since condition stepped
  rcases step_effect stepped with ⟨live, effect⟩
  have stillAnnounced : 0 < closingAnswers middle := by
    simpa only [closingAnswers, since.1] using announced
  have same := (quiet_effect_iff effect).mpr (condition stillAnnounced)
  exact ⟨same.1.trans since.1, same.2.trans since.2⟩

/-- In a run the announcement is final exactly when every completion delivered
after it is a quiet one. -/
theorem close_is_final_iff (server : Server) (events : List Event) :
    CloseIsFinal server events ↔
      EachStep (step server)
        (fun state event => 0 < closingAnswers state → Quiet state event) start events := by
  constructor
  · intro final before event after middle next split reached stepped announced
    have ran : run (step server) middle [event] = some next := by
      rw [run_cons_of_step [] stepped, run_nil]
    have same := final before [event] after middle next split reached announced ran
    exact (quiet_effect_iff (step_effect stepped).2).mp same
  · intro each before later after closed state split reached announced ran
    subst split
    exact nothing_since_run announced (each_step_before (each_step_after each reached)) ran

/-- The client asks for the connection to be closed; once the answer is written
the session reads on. -/
theorem read_after_close :
    ¬ ∀ (server : Server) (events : List Event), CloseIsFinal server events := by
  intro final
  have announced : (run (step emptyServer) start [.arrive 0 closingGet, .readDone 0]).map
      (fun state => (closingAnswers state, state.readsStarted,
        (run (step emptyServer) state [.transmit 0 [], .writeDone 0 true]).map
          fun later => later.readsStarted)) = some (1, 1, some 2) := by decide +kernel
  obtain ⟨closed, reached, shape⟩ := Option.map_eq_some_iff.mp announced
  simp only [Prod.mk.injEq] at shape
  obtain ⟨closings, reads, laterReads⟩ := shape
  obtain ⟨state, ran, started⟩ := Option.map_eq_some_iff.mp laterReads
  have same := (final emptyServer _ _ _ [] closed state
    (by rw [List.append_nil]) reached (by omega) ran).2
  omega

end RestfulWebserver.Session
