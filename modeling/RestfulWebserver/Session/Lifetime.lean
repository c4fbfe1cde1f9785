import RestfulWebserver.Library.Run
import RestfulWebserver.Session.Effect

/-!
# When a session is deleted

`safe_delete` guards against a second `delete`, but its flag lives in the object
it frees. Every `Connection: keep-alive` answer starts one operation more than
it ends, so from the first one on a session has several operations outstanding
for the rest of its life, and whichever fails first frees it under the others.
-/

namespace RestfulWebserver.Session

open RestfulWebserver.Library RestfulWebserver.Http

/-- The session is gone while a completion that will call one of its handlers
is still to come: every outstanding operation completes exactly once. -/
def HandlerAfterDelete (state : State) : Prop :=
  state.deleted = true ∧ (state.reads ≠ [] ∨ state.writes ≠ [])

def keepAliveAnswers (state : State) : Nat :=
  state.responses.countP fun response => !response.close

def closingAnswers (state : State) : Nat :=
  state.responses.countP fun response => response.close

/-- The completions on which a handler calls `safe_delete`. -/
def Fatal : Event → Prop
  | .readError _ => True
  | .writeError _ => True
  | .writeDone _ isOpen => isOpen = false
  | _ => False

theorem kept_responses_open (server : Server) (count : Nat) (fulls : List Bytes) :
    ∀ response ∈ keptResponses server count fulls, response.close = false := by
  induction fulls generalizing count with
  | nil => simp [keptResponses]
  | cons full fulls ih =>
      intro response member
      rcases List.mem_cons.mp member with rfl | later
      · rfl
      · exact ih (count + 1) response later

theorem exit_responses_close (server : Server) (count : Nat) (exit : Exit) :
    ∀ response ∈ exitResponses server count exit, response.close = true := by
  intro response member
  cases exit with
  | waiting => cases member
  | threw error => cases member
  | tooLarge =>
      rw [List.mem_singleton.mp member]
  | closing full =>
      rw [List.mem_singleton.mp member]
      unfold closingResponse
      simp only
      split_ifs <;> rfl

theorem batch_keep_alive_count (server : Server) (count : Nat) (taken : Batch) :
    (batchResponses server count taken).countP (fun response => !response.close) =
      taken.kept.length := by
  have allOpen : (keptResponses server count taken.kept).countP
      (fun response => !response.close) = taken.kept.length := by
    rw [List.countP_eq_length.mpr, kept_responses_length]
    intro response member
    simp [kept_responses_open server count taken.kept response member]
  have noneOpen : (exitResponses server (count + taken.kept.length) taken.exit).countP
      (fun response => !response.close) = 0 := by
    apply List.countP_eq_zero.mpr
    intro response member
    simp [exit_responses_close server _ taken.exit response member]
  rw [batchResponses, List.countP_append, allOpen, noneOpen, Nat.add_zero]

theorem batch_closing_count (server : Server) (count : Nat) (taken : Batch) :
    (batchResponses server count taken).countP (fun response => response.close) =
      (exitResponses server (count + taken.kept.length) taken.exit).length := by
  have noneClose : (keptResponses server count taken.kept).countP
      (fun response => response.close) = 0 := by
    apply List.countP_eq_zero.mpr
    intro response member
    simp [kept_responses_open server count taken.kept response member]
  have allClose : (exitResponses server (count + taken.kept.length) taken.exit).countP
      (fun response => response.close) =
      (exitResponses server (count + taken.kept.length) taken.exit).length := by
    apply List.countP_eq_length.mpr
    intro response member
    exact exit_responses_close server _ taken.exit response member
  rw [batchResponses, List.countP_append, noneClose, allClose, Nat.zero_add]

theorem batch_responses_length (server : Server) (count : Nat) (taken : Batch) :
    (batchResponses server count taken).length =
      taken.kept.length + (exitResponses server (count + taken.kept.length) taken.exit).length := by
  rw [batchResponses, List.length_append, kept_responses_length]

/-- Each way out of the loop starts one read, or one closing write, or lets one
exception escape. -/
theorem exit_balance (server : Server) (count : Nat) (exit : Exit) :
    (exitReads exit).length + (exitResponses server count exit).length +
      exit.error.toList.length = 1 := by
  cases exit <;> rfl

theorem length_erase_of_some {Item : Type} {items : List Item} {index : Nat} {item : Item}
    (present : items[index]? = some item) :
    (items.eraseIdx index).length + 1 = items.length := by
  obtain ⟨bound, _⟩ := List.getElem?_eq_some_iff.mp present
  rw [List.length_eraseIdx_of_lt bound]
  omega

/-! ## The number of outstanding operations -/

/-- Operations never balance out: the outstanding ones are one for the start of
the session and one for each keep-alive answer, less the reads whose handler was
left by an exception and the completion that deleted the session. -/
structure Balanced (state : State) : Prop where
  flag : state.alreadyDeleted = state.deleted
  count : state.reads.length + state.writes.length + state.escaped +
    (if state.deleted then 1 else 0) = 1 + keepAliveAnswers state

theorem balanced_start : Balanced start := ⟨rfl, rfl⟩

theorem balanced_delete {state : State} (live : state.deleted = false)
    (flag : state.alreadyDeleted = state.deleted)
    (count : state.reads.length + state.writes.length + state.escaped + 1 =
      1 + keepAliveAnswers state) : Balanced (safeDelete state) := by
  have unset : state.alreadyDeleted = false := flag.trans live
  constructor
  · simp [safeDelete, unset]
  · simpa [safeDelete, unset, keepAliveAnswers] using count

theorem balanced_effect {server : Server} {state next : State} {event : Event}
    (live : state.deleted = false) (effect : Effect server state event next)
    (balanced : Balanced state) : Balanced next := by
  obtain ⟨flag, count⟩ := balanced
  rw [live] at count
  simp only [Bool.false_eq_true, if_false, Nat.add_zero] at count
  cases effect with
  | arrive index chunk waits positive bounded =>
      refine ⟨flag, ?_⟩
      simpa [live, keepAliveAnswers] using count
  | oversize index chunk ready exceeds =>
      have erased := length_erase_of_some ready
      refine ⟨flag, ?_⟩
      simp [respondOversize, live, keepAliveAnswers] at count ⊢
      omega
  | batch index chunk ready fits taken cut =>
      have erased := length_erase_of_some ready
      have exits := exit_balance server (state.responses.length + taken.kept.length) taken.exit
      have answers := batch_responses_length server state.responses.length taken
      have kept := batch_keep_alive_count server state.responses.length taken
      refine ⟨flag, ?_⟩
      simp only [afterBatch, writeResponses, appended, live, keepAliveAnswers, List.length_append,
        List.countP_append, pending_writes_length, Bool.false_eq_true, if_false] at count ⊢
      omega
  | readError index waits =>
      have erased := length_erase_of_some waits
      refine balanced_delete (by exact live) (by exact flag) ?_
      simp only [keepAliveAnswers] at count ⊢
      omega
  | transmit index junk write pending unsent =>
      refine ⟨flag, ?_⟩
      simpa [live, keepAliveAnswers] using count
  | writeOpen index write pending sent =>
      have erased := length_erase_of_some pending
      refine ⟨flag, ?_⟩
      simp only [startRead, live, keepAliveAnswers, List.length_append, List.length_singleton,
        Bool.false_eq_true, if_false] at count ⊢
      omega
  | writeClosed index write pending sent =>
      have erased := length_erase_of_some pending
      refine balanced_delete (by exact live) (by exact flag) ?_
      simp only [keepAliveAnswers] at count ⊢
      omega
  | writeError index write pending =>
      have erased := length_erase_of_some pending
      refine balanced_delete (by exact live) (by exact flag) ?_
      simp only [keepAliveAnswers] at count ⊢
      omega

theorem balanced_run {server : Server} {events : List Event} {state : State}
    (ran : run (step server) start events = some state) : Balanced state := by
  apply invariant_of_run balanced_start _ ran
  intro before event next balanced stepped
  obtain ⟨live, effect⟩ := step_effect stepped
  exact balanced_effect live effect balanced

/-! ## Deletion under outstanding operations -/

/-- A step deletes a live session exactly when its completion is a fatal one,
and then writes no response and lets no exception escape. -/
theorem fatal_effect {server : Server} {state next : State} {event : Event}
    (live : state.deleted = false) (flag : state.alreadyDeleted = state.deleted)
    (effect : Effect server state event next) :
    (next.deleted = true ↔ Fatal event) ∧
      (Fatal event → next.responses = state.responses ∧ next.escaped = state.escaped) := by
  have unset : state.alreadyDeleted = false := flag.trans live
  cases effect <;>
    simp [Fatal, live, unset, safeDelete, respondOversize, afterBatch, writeResponses, appended,
      startRead]

theorem handler_after_delete_iff {state : State} (balanced : Balanced state) :
    HandlerAfterDelete state ↔
      state.deleted = true ∧ keepAliveAnswers state ≠ state.escaped := by
  apply and_congr_right
  intro deleted
  have count := balanced.count
  simp only [deleted, if_true] at count
  have nonempty : (state.reads ≠ [] ∨ state.writes ≠ []) ↔
      0 < state.reads.length + state.writes.length := by
    rw [← List.length_pos_iff, ← List.length_pos_iff]
    omega
  rw [nonempty]
  omega

/-- A run is free of handlers on a deleted session exactly when no completion
deletes the session after a keep-alive answer (an exception that escaped from
`handle_read` takes one operation with it and so makes up for one answer). -/
theorem session_outlives_operations_iff (server : Server) (events : List Event) :
    Throughout (step server) (fun state => ¬ HandlerAfterDelete state) start events ↔
      EachStep (step server)
        (fun state event => Fatal event → keepAliveAnswers state = state.escaped)
        start events := by
  constructor
  · intro safe before event after middle next split reached stepped fatal
    subst split
    obtain ⟨live, effect⟩ := step_effect stepped
    have balanced := balanced_run reached
    obtain ⟨deletes, frame⟩ := fatal_effect live balanced.flag effect
    obtain ⟨sameResponses, sameEscaped⟩ := frame fatal
    have survives := throughout_after_step safe reached stepped
    rw [handler_after_delete_iff (balanced_effect live effect balanced)] at survives
    have equal : keepAliveAnswers next = next.escaped := by
      by_contra differ
      exact survives ⟨deletes.mpr fatal, differ⟩
    simpa only [keepAliveAnswers, sameResponses, sameEscaped] using equal
  · intro each before after middle split reached
    subst split
    -- only the last step of a run can have deleted the session
    rcases List.eq_nil_or_concat before with rfl | ⟨earlier, event, rfl⟩
    · cases reached
      simp [HandlerAfterDelete, start, startRead, constructed]
    · rw [List.concat_eq_append] at reached each
      obtain ⟨prior, priorReached, stepped⟩ := run_snoc_eq_some reached
      obtain ⟨live, effect⟩ := step_effect stepped
      have balanced := balanced_run priorReached
      obtain ⟨deletes, frame⟩ := fatal_effect live balanced.flag effect
      rw [handler_after_delete_iff (balanced_effect live effect balanced)]
      rintro ⟨deleted, differ⟩
      have fatal := deletes.mp deleted
      obtain ⟨sameResponses, sameEscaped⟩ := frame fatal
      have equal := each_step_last (each_step_before each) priorReached stepped fatal
      apply differ
      simpa only [keepAliveAnswers, sameResponses, sameEscaped] using equal

def emptyServer : Server where
  routes := OrderedMap.empty
  handle := fun _ _ _ _ => notFoundResponse

def keepAliveGet : Bytes := "GET / HTTP/1.1\r\n\r\n".toList

def closingGet : Bytes := "GET / HTTP/1.1\r\nConnection: close\r\n\r\n".toList

/-- One answered request, then the client closes its side: the read fails while
the response is still being written. -/
theorem session_deleted_under_write :
    ¬ ∀ (server : Server) (events : List Event),
      Throughout (step server) (fun state => ¬ HandlerAfterDelete state) start events := by
  intro safe
  have outcome : (run (step emptyServer) start
      [.arrive 0 keepAliveGet, .readDone 0, .readError 0]).map
        (fun state => (state.deleted, state.reads.length, state.writes.length)) =
      some (true, 0, 1) := by decide +kernel
  obtain ⟨state, reached, shape⟩ := Option.map_eq_some_iff.mp outcome
  simp only [Prod.mk.injEq] at shape
  obtain ⟨deleted, _, writes⟩ := shape
  apply safe emptyServer _ _ [] state (List.append_nil _).symm reached
  refine ⟨deleted, Or.inr ?_⟩
  intro none
  rw [none] at writes
  cases writes

end RestfulWebserver.Session
