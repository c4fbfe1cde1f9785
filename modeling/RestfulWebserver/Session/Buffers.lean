import RestfulWebserver.Session.Readers

/-!
# Whether the bytes of a response survive until they are sent

All responses of a session are written from `current_response_`, except the 413
of the oversize branch, which is written from a local string. A second response
assigns the member again while the first is still being written, and a fatal
completion frees it.
-/

namespace RestfulWebserver.Session

open RestfulWebserver.Library RestfulWebserver.Http

def texts (state : State) : List Bytes := state.responses.map Response.text

/-- Every outstanding write still finds the response it was started with, and
what was sent are the responses in order, each once. -/
structure WritesIntact (state : State) : Prop where
  stored : ∀ write ∈ state.writes, storageContents state write = some write.text
  inOrder : state.wire <+: texts state

def Answers (buffer : Bytes) : Prop :=
  ∃ frame, nextFrame buffer = .ok frame ∧ frame ≠ .incomplete

/-- Behind a request that keeps the connection, nothing calls for another one. -/
def SingleAnswer (buffer : Bytes) : Prop :=
  ∀ size, nextFrame buffer = .ok (.complete size) →
    endsConnection (parseRequest (buffer.take size)) = false → ¬ Answers (buffer.drop size)

def SparesWrites (state : State) : Event → Prop
  | .readDone index => ∀ chunk, state.reads[index]? = some (some chunk) →
      state.requestBuffer.length + chunk.length ≤ maxRequestSize ∧
      SingleAnswer (state.requestBuffer ++ state.data.take chunk.length) ∧
      (Answers (state.requestBuffer ++ state.data.take chunk.length) → state.writes = [])
  | .readError _ => state.writes = []
  | _ => True

theorem batch_responses_nil_iff (server : Server) (count : Nat) (buffer : Bytes) :
    batchResponses server count (batch buffer) = [] ↔ ¬ Answers buffer := by
  cases found : nextFrame buffer with
  | error error =>
      simp [batch_threw found, batchResponses, keptResponses, exitResponses, Answers, found]
  | ok frame =>
      cases frame with
      | incomplete =>
          simp [batch_incomplete found, batchResponses, keptResponses, exitResponses, Answers,
            found]
      | tooLarge =>
          simp [batch_too_large found, batchResponses, exitResponses, Answers, found]
      | complete size =>
          cases ends : endsConnection (parseRequest (buffer.take size)) with
          | true =>
              simp [batch_closing found ends, batchResponses, exitResponses, Answers, found]
          | false =>
              simp [batch_kept found ends, batchResponses, keptResponses, Answers, found]

theorem batch_responses_single_iff (server : Server) (count : Nat) (buffer : Bytes) :
    (batchResponses server count (batch buffer)).length ≤ 1 ↔ SingleAnswer buffer := by
  cases found : nextFrame buffer with
  | error error =>
      simp [batch_threw found, batchResponses, keptResponses, exitResponses, SingleAnswer, found]
  | ok frame =>
      cases frame with
      | incomplete =>
          simp [batch_incomplete found, batchResponses, keptResponses, exitResponses,
            SingleAnswer, found]
      | tooLarge =>
          simp [batch_too_large found, batchResponses, keptResponses, exitResponses,
            SingleAnswer, found]
      | complete size =>
          cases ends : endsConnection (parseRequest (buffer.take size)) with
          | true =>
              simp [batch_closing found ends, batchResponses, keptResponses, exitResponses,
                SingleAnswer, found, ends]
          | false =>
              have later := batch_responses_nil_iff server (count + 1) (buffer.drop size)
              rw [batch_kept found ends, batch_responses_cons]
              rw [List.length_cons, Nat.succ_le_succ_iff, Nat.le_zero, List.length_eq_zero_iff,
                later]
              constructor
              · intro quiet other same _
                cases found.symm.trans same
                exact quiet
              · intro quiet
                exact quiet size found ends

/-- The ways a session stands between its responses and the wire. -/
inductive WritePhase (state : State) : Prop where
  | idle (none : state.writes = []) (all : state.wire = texts state)
  | unsent (write : PendingWrite) (only : state.writes = [write]) (waits : write.sent = false)
      (stored : storageContents state write = some write.text)
      (all : state.wire ++ [write.text] = texts state)
  | sent (write : PendingWrite) (only : state.writes = [write]) (done : write.sent = true)
      (stored : storageContents state write = some write.text)
      (all : state.wire = texts state)
  | gone (deleted : state.deleted = true) (none : state.writes = [])
      (inOrder : state.wire <+: texts state)

theorem writes_intact_of_phase {state : State} (phase : WritePhase state) :
    WritesIntact state := by
  cases phase with
  | idle none all => constructor <;> simp [none, all]
  | unsent write only waits stored all => constructor <;> simp [only, stored, ← all]
  | sent write only done stored all => constructor <;> simp [only, stored, all]
  | gone deleted none inOrder => exact ⟨by simp [none], inOrder⟩

theorem write_phase_in_order {state : State} (phase : WritePhase state) :
    state.wire <+: texts state := (writes_intact_of_phase phase).inOrder

/-- At most one write is outstanding, and what it says about the wire. -/
theorem outstanding_write {state : State} (phase : WritePhase state) {index : Nat}
    {write : PendingWrite} (pending : state.writes[index]? = some write) :
    state.writes = [write] ∧ index = 0 ∧ storageContents state write = some write.text ∧
      state.wire ++ (if write.sent then [] else [write.text]) = texts state := by
  have single : ∀ other, state.writes = [other] → other = write ∧ index = 0 := by
    intro other only
    rw [only] at pending
    cases index with
    | zero => exact ⟨Option.some.inj pending, rfl⟩
    | succ index => cases pending
  cases phase with
  | idle none all => simp [none] at pending
  | unsent other only waits stored all =>
      obtain ⟨same, first⟩ := single other only
      subst same
      exact ⟨only, first, stored, by rwa [waits]⟩
  | sent other only done stored all =>
      obtain ⟨same, first⟩ := single other only
      subst same
      exact ⟨only, first, stored, by rw [done, if_pos rfl, List.append_nil, all]⟩
  | gone deleted none inOrder => simp [none] at pending

theorem write_phase_frame {state next : State} (phase : WritePhase state)
    (writes : next.writes = state.writes) (wire : next.wire = state.wire)
    (answered : texts next = texts state) (deleted : next.deleted = state.deleted)
    (storage : ∀ write, storageContents next write = storageContents state write) :
    WritePhase next := by
  cases phase with
  | idle none all =>
      apply WritePhase.idle
      · rw [writes, none]
      · rw [wire, answered, all]
  | unsent write only waits stored all =>
      apply WritePhase.unsent write
      · rw [writes, only]
      · exact waits
      · rw [storage, stored]
      · rw [wire, answered, all]
  | sent write only done stored all =>
      apply WritePhase.sent write
      · rw [writes, only]
      · exact done
      · rw [storage, stored]
      · rw [wire, answered, all]
  | gone freed none inOrder =>
      apply WritePhase.gone
      · rw [deleted, freed]
      · rw [writes, none]
      · rwa [wire, answered]

theorem write_phase_safe_delete {state : State} (unset : state.alreadyDeleted = false)
    (none : state.writes = []) (inOrder : state.wire <+: texts state) :
    (safeDelete state).alreadyDeleted = (safeDelete state).deleted ∧
      WritePhase (safeDelete state) := by
  rw [safeDelete, unset]
  exact ⟨rfl, .gone rfl none inOrder⟩

theorem write_phase_last_write {state : State} (unset : state.alreadyDeleted = false)
    (phase : WritePhase state) {index : Nat} {write : PendingWrite}
    (pending : state.writes[index]? = some write) :
    let last := safeDelete { state with writes := state.writes.eraseIdx index }
    last.alreadyDeleted = last.deleted ∧ WritePhase last := by
  obtain ⟨only, first, _⟩ := outstanding_write phase pending
  have inOrder := write_phase_in_order phase
  apply write_phase_safe_delete
  · exact unset
  · simp [only, first]
  · exact inOrder

theorem write_phase_write_responses {state : State} (phase : WritePhase state)
    (live : state.deleted = false) (answers : List Response) (few : answers.length ≤ 1)
    (spared : answers ≠ [] → state.writes = []) : WritePhase (writeResponses state answers) := by
  cases answers with
  | nil =>
      rw [write_responses_nil]
      exact phase
  | cons response later =>
      have nothingLater : later = [] := by
        simpa using few
      have none := spared (by simp)
      subst nothingLater
      apply WritePhase.unsent ⟨response.text, .currentResponse (state.assignments + 1), false⟩
      · simp [writeResponses, pendingWrites, none]
      · rfl
      · simp [storageContents, writeResponses, live]
      · cases phase with
        | idle _ all => simp [texts, writeResponses, all]
        | unsent write only => simp [none] at only
        | sent write only => simp [none] at only
        | gone deleted => simp [live] at deleted

/-- The step lemma: a delivery that spares the outstanding writes leads from
phase to phase. -/
theorem write_phase_effect {server : Server} {state next : State} {event : Event}
    (live : state.deleted = false) (unset : state.alreadyDeleted = false)
    (effect : Effect server state event next) (phase : WritePhase state)
    (spares : SparesWrites state event) :
    next.alreadyDeleted = next.deleted ∧ WritePhase next := by
  cases effect with
  | arrive index chunk waits positive bounded =>
      refine ⟨unset.trans live.symm, ?_⟩
      exact write_phase_frame phase rfl rfl rfl rfl fun _ => rfl
  | oversize index chunk ready exceeds =>
      have fits := (spares chunk ready).1
      omega
  | batch index chunk ready fits taken cut =>
      rcases spares chunk ready with ⟨_, single, spared⟩
      subst cut
      refine ⟨unset.trans live.symm, ?_⟩
      have few := (batch_responses_single_iff server state.responses.length _).mpr single
      have quiet := batch_responses_nil_iff server state.responses.length
        (state.requestBuffer ++ state.data.take chunk.length)
      have written : WritePhase (writeResponses state (batchResponses server
          state.responses.length (batch (appended state index chunk).requestBuffer))) := by
        apply write_phase_write_responses phase live _ few
        intro some
        apply spared
        by_contra silent
        exact some (quiet.mpr silent)
      exact write_phase_frame written rfl rfl rfl rfl fun _ => rfl
  | readError index waits =>
      have inOrder := write_phase_in_order phase
      exact write_phase_safe_delete unset spares inOrder
  | transmit index junk write pending unsent =>
      obtain ⟨only, first, stored, all⟩ := outstanding_write phase pending
      refine ⟨unset.trans live.symm, ?_⟩
      apply WritePhase.sent { write with sent := true }
      · simp [only, first]
      · rfl
      · simpa [storageContents] using stored
      · simpa [unsent, stored, texts] using all
  | writeOpen index write pending sent =>
      obtain ⟨only, first, stored, all⟩ := outstanding_write phase pending
      refine ⟨unset.trans live.symm, ?_⟩
      apply WritePhase.idle
      · simp [startRead, only, first]
      · simpa [sent, texts, startRead] using all
  | writeClosed index write pending sent => exact write_phase_last_write unset phase pending
  | writeError index write pending => exact write_phase_last_write unset phase pending

/-- Only the latest assignment of a session that exists is still readable. -/
theorem latest_of_stored {state : State} {write : PendingWrite} {text : Bytes}
    (stored : storageContents state write = some text) :
    state.deleted = false ∧ write.storage = .currentResponse state.assignments := by
  unfold storageContents at stored
  cases storage : write.storage with
  | errorResponse => simp [storage] at stored
  | currentResponse assignment =>
      simp only [storage] at stored
      split at stored
      · rename_i current
        exact ⟨current.1, by rw [current.2]⟩
      · cases stored

/-- A response written after `write` was started has taken its storage. -/
theorem storage_taken {state : State} {write : PendingWrite} {answers : List Response}
    (before : storageContents state write = some write.text)
    (after : storageContents (writeResponses state answers) write = some write.text) :
    answers = [] := by
  have early := (latest_of_stored before).2
  have late := (latest_of_stored after).2
  simp only [early, writeResponses, Storage.currentResponse.injEq] at late
  apply List.length_eq_zero_iff.mp
  omega

theorem several_answers_overlap {state : State} {answers : List Response}
    (stored : ∀ write ∈ (writeResponses state answers).writes,
      storageContents (writeResponses state answers) write = some write.text) :
    answers.length ≤ 1 := by
  cases answers with
  | nil => simp
  | cons response later =>
      have first := stored ⟨response.text, .currentResponse (state.assignments + 1), false⟩
        (by simp [writeResponses, pendingWrites])
      have latest := (latest_of_stored first).2
      simp only [writeResponses, List.length_cons, Storage.currentResponse.injEq] at latest
      simp only [List.length_cons]
      omega

/-- The converse of the step lemma: other deliveries take the storage of a write. -/
theorem spares_writes_of_intact {server : Server} {state next : State} {event : Event}
    (unset : state.alreadyDeleted = false)
    (effect : Effect server state event next) (before : WritesIntact state)
    (after : WritesIntact next) : SparesWrites state event := by
  cases effect with
  | oversize index chunk ready exceeds =>
      have lost := after.stored ⟨errorResponse, .errorResponse, false⟩
        (by simp [respondOversize])
      cases lost
  | batch index chunk ready fits taken cut =>
      subst cut
      intro other same
      cases ready.symm.trans same
      have stored := after.stored
      have quiet := batch_responses_nil_iff server state.responses.length
        (state.requestBuffer ++ state.data.take chunk.length)
      refine ⟨fits, ?_, ?_⟩
      · apply (batch_responses_single_iff server state.responses.length _).mp
        exact @several_answers_overlap state _ stored
      · intro answers
        apply List.eq_nil_iff_forall_not_mem.mpr
        intro write member
        have silent := storage_taken (before.stored write member)
          (stored write (List.mem_append_left _ member))
        exact quiet.mp silent answers
  | readError index waits =>
      apply List.eq_nil_iff_forall_not_mem.mpr
      intro write member
      have kept := after.stored write (by simpa [safeDelete, unset] using member)
      have live := (latest_of_stored kept).1
      simp [safeDelete, unset] at live
  | _ => trivial

def PhasedWrites (state : State) : Prop :=
  state.alreadyDeleted = state.deleted ∧ WritePhase state

/-- Responses reach the wire intact throughout a run exactly when every chunk
fits the buffer and yields at most one response, and none, nor a failed read, is
delivered over an outstanding write. -/
theorem writes_intact_iff (server : Server) (events : List Event) :
    Throughout (step server) WritesIntact start events ↔
      EachStep (step server) SparesWrites start events := by
  constructor
  · intro intact before event after middle next split reached stepped
    subst split
    rcases step_effect stepped with ⟨live, effect⟩
    have flag := (reads_balance_run reached).1
    exact spares_writes_of_intact (flag.trans live) effect
      (throughout_before_step intact reached) (throughout_after_step intact reached stepped)
  · intro each
    have initial : PhasedWrites start := ⟨rfl, .idle rfl rfl⟩
    have phased : Throughout (step server) PhasedWrites start events := by
      apply throughout_of_each_step initial _ each
      intro state event next phases spares stepped
      rcases step_effect stepped with ⟨live, effect⟩
      exact write_phase_effect live (phases.1.trans live) effect phases.2 spares
    intro before after middle split reached
    exact writes_intact_of_phase (phased before after middle split reached).2

/-- Two requests in one chunk: the second answer is assigned to
`current_response_` while the first is still to be sent from it. -/
theorem pipelined_answer_overwritten :
    ¬ ∀ (server : Server) (events : List Event),
      Throughout (step server) WritesIntact start events := by
  intro intact
  have outcome : (run (step emptyServer) start
      [.arrive 0 (keepAliveGet ++ keepAliveGet), .readDone 0]).map
        (fun state => (state.writes.map PendingWrite.storage, state.assignments)) =
      some ([.currentResponse 1, .currentResponse 2], 2) := by decide +kernel
  rcases Option.map_eq_some_iff.mp outcome with ⟨state, reached, shape⟩
  simp only [Prod.mk.injEq] at shape
  rcases shape with ⟨storages, assignments⟩
  rcases List.map_eq_cons_iff.mp storages with ⟨write, later, writes, storage, _⟩
  have stored := (intact emptyServer _ _ [] state (List.append_nil _).symm reached).stored write
    (by simp [writes])
  simp [storageContents, storage, assignments] at stored

end RestfulWebserver.Session
