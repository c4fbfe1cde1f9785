import RestfulWebserver.Entity.StoredIds

/-!
# The handler over the mock

The handler tests put a `MockFilesystem` under `EntityHandler`. Whatever the store
allows as the next answer, the handler over the mock gives as well, but for the
order of a listing and the text of a 404. So what is seen over the mock holds of
the handler over a disk, for requests for entities one after another.
-/

namespace RestfulWebserver.Entity

open RestfulWebserver.Library RestfulWebserver.Http

/-- The same answer, up to the order of a listing and the text of a 404. -/
inductive AnswersAlike : HttpResponse → HttpResponse → Prop
  | same (response : HttpResponse) : AnswersAlike response response
  | listed {ids others : List Bytes} (perm : ids.Perm others) :
      AnswersAlike (jsonResponse (listing ids)) (jsonResponse (listing others))
  | notFound (what other : Bytes) :
      AnswersAlike (bareResponse .notFound what) (bareResponse .notFound other)

/-! ## The calls of a request, over any file system -/

section Methods

variable {M : Type → Type} [Monad M] [MonadExcept Thrown M] {filesystem : Filesystem M}
  {baseDir name id : Bytes} {request : HttpRequest}

open EntityHandler

theorem serve_on_post (parts : entityParts request.path = (name, id))
    (post : request.method = "POST".toList) :
    serveOn filesystem baseDir request = (do
      let newId ← filesystem.nextId ⟨baseDir, name⟩
      filesystem.write ⟨baseDir, name⟩ newId request.body
      pure (idResponse newId)) := by
  simp only [serveOn, parts, post, if_true]

theorem serve_on_list (parts : entityParts request.path = (name, []))
    (get : request.method = "GET".toList) :
    serveOn filesystem baseDir request = (do
      let ids ← filesystem.listIds ⟨baseDir, name⟩
      pure (jsonResponse (listing ids))) := by
  simp [serveOn, parts, get]

theorem serve_on_read (parts : entityParts request.path = (name, id))
    (get : request.method = "GET".toList) (isId : id ≠ []) :
    serveOn filesystem baseDir request = (do
      let contents ← filesystem.read ⟨baseDir, name⟩ id
      pure (jsonResponse contents)) := by
  simp [serveOn, parts, get, isId]

theorem serve_on_put (parts : entityParts request.path = (name, id))
    (put : request.method = "PUT".toList) (isId : id ≠ []) :
    serveOn filesystem baseDir request = (do
      filesystem.write ⟨baseDir, name⟩ id request.body
      pure (idResponse id)) := by
  simp [serveOn, parts, put, isId]

theorem serve_on_put_nowhere (parts : entityParts request.path = (name, []))
    (put : request.method = "PUT".toList) :
    serveOn filesystem baseDir request =
      throw (.other "PUT request must specify an ID.".toList) := by
  simp [serveOn, parts, put]

theorem serve_on_delete (parts : entityParts request.path = (name, id))
    (delete : request.method = "DELETE".toList) (isId : id ≠ []) :
    serveOn filesystem baseDir request = (do
      filesystem.remove ⟨baseDir, name⟩ id
      pure (jsonResponse "\x7b\"status\": \"deleted\"\x7d".toList)) := by
  simp [serveOn, parts, delete, isId]

theorem serve_on_delete_nowhere (parts : entityParts request.path = (name, []))
    (delete : request.method = "DELETE".toList) :
    serveOn filesystem baseDir request =
      throw (.other "DELETE request must specify an ID.".toList) := by
  simp [serveOn, parts, delete]

theorem serve_on_other (noPost : request.method ≠ "POST".toList)
    (noGet : request.method ≠ "GET".toList) (noPut : request.method ≠ "PUT".toList)
    (noDelete : request.method ≠ "DELETE".toList) :
    serveOn filesystem baseDir request =
      pure (bareResponse .badRequest "Unsupported HTTP method.".toList) := by
  simp only [serveOn, if_neg noPost, if_neg noGet, if_neg noPut, if_neg noDelete]

end Methods

/-! ## One request to the mock -/

section Request

open EntityHandler

variable {baseDir : Bytes} {event : EntityRequest} {store after : Store} {data next : MockData}
  {request : HttpRequest} {response : HttpResponse}

theorem handle_mock_of_run {outcome : Except Thrown HttpResponse}
    (served : (serveOn mockFilesystem baseDir request).run.run data = (outcome, next)) :
    handleMock baseDir request data = (answer outcome, next) := by
  rw [handleMock, served]

theorem handle_mock_call {Result : Type} {call : MockM Result} {onward : Result → HttpResponse}
    {outcome : Except Thrown Result}
    (served : serveOn mockFilesystem baseDir request = (do
      let result ← call
      pure (onward result)))
    (ran : call.run.run data = (outcome, next)) :
    handleMock baseDir request data = (answer (outcome.map onward), next) := by
  apply handle_mock_of_run
  rw [served]
  cases outcome with
  | ok result => exact MockFilesystem.bind_ok ran
  | error thrown => exact MockFilesystem.bind_error ran

theorem list_mock (holds : MockHolds data store) {name : FileName} {ids : List FileName}
    (lists : store.Lists name ids) : ∃ others : List FileName,
      (MockFilesystem.listIds ⟨baseDir, name.name⟩).run.run data =
          (.ok (others.map FileName.name), data) ∧
        (ids.map FileName.name).Perm (others.map FileName.name) := by
  obtain ⟨others, same, keys⟩ := MockFilesystem.lists_stored holds name
  refine ⟨others, ?_, Store.lists_perm lists same⟩
  rw [MockFilesystem.run_list, keys]

/-- The number of a new id does not depend on the order in which the mock lists them. -/
theorem number_mock (holds : MockHolds data store) {name : FileName} {ids : List FileName}
    (lists : store.Lists name ids) :
    (MockFilesystem.nextId ⟨baseDir, name.name⟩).run.run data =
      (.ok (Store.newId ids).name, data) := by
  obtain ⟨others, listed, perm⟩ := @list_mock baseDir _ _ holds _ _ lists
  rw [MockFilesystem.nextId, MockFilesystem.bind_ok listed, ← Store.max_id_perm perm]
  rfl

theorem post_mock (holds : MockHolds data store) {ids : List FileName}
    (lists : store.Lists event.name ids) (post : event.request.method = "POST".toList)
    {outcome : Except Thrown Unit}
    (written : (MockFilesystem.write ⟨baseDir, event.name.name⟩ (Store.newId ids).name
      event.request.body).run.run data = (outcome, next)) :
    handleMock baseDir event.request data =
      (answer (outcome.map fun _ => idResponse (Store.newId ids).name), next) := by
  apply handle_mock_of_run
  rw [serve_on_post (parts_of_request event) post]
  apply (MockFilesystem.bind_ok (number_mock holds lists)).trans
  cases outcome with
  | ok done => exact MockFilesystem.bind_ok written
  | error thrown => exact MockFilesystem.bind_error written

theorem mock_alike (holds : MockHolds data store)
    (serves : Serves baseDir event store response after) : ∃ answered next,
      handleMock baseDir event.request data = (answered, next) ∧
        AnswersAlike response answered ∧ MockHolds next after := by
  cases serves with
  | posted post lists valid =>
      obtain ⟨next, written, stillHolds⟩ :=
        MockFilesystem.write_valid holds event.request.body valid
      exact ⟨_, _, post_mock holds lists post written, .same _, stillHolds⟩
  | postRefused post lists invalid =>
      have refused :=
        @MockFilesystem.write_refused data baseDir event.request.body event.name _ invalid
      exact ⟨_, _, post_mock holds lists post refused, .same _, holds⟩
  | listed get noId lists =>
      obtain ⟨others, listed, perm⟩ := list_mock holds lists
      exact ⟨_, _, handle_mock_call (serve_on_list (parts_without_id noId) get) listed,
        .listed perm, holds⟩
  | @got id contents get isId stored =>
      exact ⟨_, _, handle_mock_call (serve_on_read (parts_with_id isId) get id.nonempty)
        (MockFilesystem.read_stored holds stored), .same _, holds⟩
  | @notGot id get isId absent =>
      exact ⟨_, _, handle_mock_call (serve_on_read (parts_with_id isId) get id.nonempty)
        (MockFilesystem.read_absent holds absent), .notFound _ _, holds⟩
  | @put id put isId valid =>
      obtain ⟨next, written, stillHolds⟩ :=
        MockFilesystem.write_valid holds event.request.body valid
      exact ⟨_, _, handle_mock_call (serve_on_put (parts_with_id isId) put id.nonempty) written,
        .same _, stillHolds⟩
  | @putRefused id put isId invalid =>
      have refused :=
        @MockFilesystem.write_refused data baseDir event.request.body event.name id invalid
      exact ⟨_, _, handle_mock_call (serve_on_put (parts_with_id isId) put id.nonempty) refused,
        .same _, holds⟩
  | @deleted id contents delete isId stored =>
      obtain ⟨next, removed, stillHolds⟩ := MockFilesystem.remove_stored holds stored
      exact ⟨_, _, handle_mock_call (serve_on_delete (parts_with_id isId) delete id.nonempty)
        removed, .same _, stillHolds⟩
  | @notDeleted id delete isId absent =>
      exact ⟨_, _, handle_mock_call (serve_on_delete (parts_with_id isId) delete id.nonempty)
        (MockFilesystem.remove_absent holds absent), .notFound _ _, holds⟩
  | putNowhere put noId =>
      have served := @serve_on_put_nowhere _ _ _ mockFilesystem baseDir _ _
        (parts_without_id noId) put
      exact ⟨_, _, handle_mock_of_run (congrArg (fun program => program.run.run data) served),
        .same _, holds⟩
  | deletedNowhere delete noId =>
      have served := @serve_on_delete_nowhere _ _ _ mockFilesystem baseDir _ _
        (parts_without_id noId) delete
      exact ⟨_, _, handle_mock_of_run (congrArg (fun program => program.run.run data) served),
        .same _, holds⟩
  | unsupported noPost noGet noPut noDelete =>
      have served := @serve_on_other _ _ _ mockFilesystem baseDir _ noPost noGet noPut noDelete
      exact ⟨_, _, handle_mock_of_run (congrArg (fun program => program.run.run data) served),
        .same _, holds⟩

end Request

/-! ## Requests one after another -/

def ReturnsAlike (outcome : Except Thrown HttpResponse) (other : HttpResponse) : Prop :=
  ∃ response, outcome = .ok response ∧ AnswersAlike response other

theorem all_answered_alike {baseDir : Bytes} {disk : Disk} {data : MockData} {store : Store}
    (represents : Represents baseDir disk.tree store) (holds : MockHolds data store)
    (requests : List EntityRequest) :
    List.Forall₂ ReturnsAlike
        (EntityHandler.handleAll baseDir (requests.map EntityRequest.request) disk).1
        (EntityHandler.mockAll baseDir (requests.map EntityRequest.request) data).1 ∧
      ∃ after, Represents baseDir
          (EntityHandler.handleAll baseDir (requests.map EntityRequest.request) disk).2.tree
          after ∧
        MockHolds (EntityHandler.mockAll baseDir (requests.map EntityRequest.request) data).2
          after := by
  induction requests generalizing disk data store with
  | nil => exact ⟨.nil, store, represents, holds⟩
  | cons event later ih =>
      obtain ⟨outcome, next, after, served, serves, stillRepresents⟩ :=
        request_follows represents event
      have handled := run_handle (run_create_root represents) served
      obtain ⟨answered, nextData, mocked, alike, stillHolds⟩ := mock_alike holds serves
      obtain ⟨answers, last, both⟩ := ih stillRepresents stillHolds
      change Program.exec Disk.perform _ disk = _ at handled
      have onDisk : EntityHandler.handleAll baseDir
          ((event :: later).map EntityRequest.request) disk =
        (.ok (EntityHandler.answer outcome) :: (EntityHandler.handleAll baseDir
          (later.map EntityRequest.request) next).1, (EntityHandler.handleAll baseDir
          (later.map EntityRequest.request) next).2) := by
        simp only [EntityHandler.handleAll, List.map_cons, Program.inTurn, handled]
      have onMock : EntityHandler.mockAll baseDir
          ((event :: later).map EntityRequest.request) data =
        (answered :: (EntityHandler.mockAll baseDir
          (later.map EntityRequest.request) nextData).1, (EntityHandler.mockAll baseDir
          (later.map EntityRequest.request) nextData).2) := by
        simp only [EntityHandler.mockAll, List.map_cons, mocked]
      rw [onDisk, onMock]
      exact ⟨.cons ⟨_, rfl, alike⟩ answers, last, both⟩

/-- Over a disk and a mock that hold the same store, all requests for entities are
answered, and alike, and in the end both hold the same store again. -/
theorem mock_answers_alike (baseDir : Bytes) (disk : Disk) (data : MockData) (store : Store)
    (represents : Represents baseDir disk.tree store) (holds : MockHolds data store)
    (requests : List EntityRequest) :
    (EntityHandler.handleAll baseDir (requests.map EntityRequest.request) disk).1.length =
        requests.length ∧
      List.Forall₂ ReturnsAlike
        (EntityHandler.handleAll baseDir (requests.map EntityRequest.request) disk).1
        (EntityHandler.mockAll baseDir (requests.map EntityRequest.request) data).1 ∧
      ∃ after, Represents baseDir
          (EntityHandler.handleAll baseDir (requests.map EntityRequest.request) disk).2.tree
          after ∧
        MockHolds (EntityHandler.mockAll baseDir (requests.map EntityRequest.request) data).2
          after := by
  constructor
  · rw [handle_all_length, List.length_map]
  · exact all_answered_alike represents holds requests

theorem mock_answers_alike_items :
    List.Forall₂ ReturnsAlike
      (EntityHandler.handleAll "/data".toList (itemRequests.map EntityRequest.request)
        (emptyDisk "data".toList)).1
      (EntityHandler.mockAll "/data".toList (itemRequests.map EntityRequest.request)
        OrderedMap.empty).1 :=
  (mock_answers_alike "/data".toList (emptyDisk "data".toList) OrderedMap.empty Store.empty
    (empty_represents (by decide) empty_disk_base) MockFilesystem.empty_holds itemRequests).2.1

end RestfulWebserver.Entity
