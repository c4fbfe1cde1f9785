import RestfulWebserver.Entity.Store

/-!
# The handler over a keyed store

Requests for `/p/name` and `/p/name/id`, one after another on a disk, are
answered as a store from names and ids to bytes has it.
-/

namespace RestfulWebserver.Entity

open RestfulWebserver.Library RestfulWebserver.Http

/-! ## The parts of a path -/

theorem find_slash {front : Bytes} (noSlash : '/' ∉ front) (rest : Bytes) :
    find "/".toList (front ++ '/' :: rest) = some front.length := by
  have begins : "/".toList.head? = some '/' := rfl
  have here : find "/".toList ('/' :: rest) = some 0 :=
    find_at_front (List.cons_prefix_cons.mpr ⟨rfl, List.nil_prefix⟩)
  rw [find_skip begins noSlash, here]
  simp

theorem find_no_slash {text : Bytes} (noSlash : '/' ∉ text) : find "/".toList text = none := by
  have begins : "/".toList.head? = some '/' := rfl
  have skipped := @find_skip "/".toList text [] '/' begins noSlash
  rw [List.append_nil] at skipped
  rw [skipped]
  rfl

theorem find_slash_behind {path gone part rest : Bytes} {position : Nat}
    (split : path = gone ++ (part ++ '/' :: rest)) (length : gone.length = position)
    (noSlash : '/' ∉ part) : findSlash path position = some (position + part.length) := by
  rw [findSlash, split, ← length, List.drop_left, find_slash noSlash, Option.map_some, Nat.add_comm]

theorem find_no_slash_behind {path gone part : Bytes} {position : Nat}
    (split : path = gone ++ part) (length : gone.length = position) (noSlash : '/' ∉ part) :
    findSlash path position = none := by
  rw [findSlash, split, ← length, List.drop_left, find_no_slash noSlash]
  rfl

section Parts

variable {first second : Bytes}

variable {path : Bytes}

theorem entity_parts_name {name : Bytes} (noFirst : '/' ∉ first) (noSecond : '/' ∉ second)
    (split : path = first ++ '/' :: (second ++ '/' :: name)) (noSlash : '/' ∉ name) :
    entityParts path = (name, []) := by
  have firstFound := @find_slash_behind path [] first _ 0 split rfl noFirst
  have secondFound := @find_slash_behind path (first ++ ['/']) second name (first.length + 1)
    (by simp [split]) (by simp) noSecond
  have noThird := @find_no_slash_behind path (first ++ '/' :: (second ++ ['/'])) name
    (first.length + 1 + second.length + 1) (by simp [split])
    (by simp only [List.length_append, List.length_cons, List.length_nil]; omega) noSlash
  simp only [entityParts, firstFound, Nat.zero_add, following, secondFound, noThird]
  have front : first ++ '/' :: (second ++ '/' :: name) =
      (first ++ '/' :: (second ++ ['/'])) ++ name := by simp
  have length : (first ++ '/' :: (second ++ ['/'])).length =
      first.length + 1 + second.length + 1 := by
    simp only [List.length_append, List.length_cons, List.length_nil]
    omega
  rw [split, front, ← length, List.drop_left]

/-- What lies between the second and the third slash is the name. -/
theorem entity_parts_id {name id : Bytes} (noFirst : '/' ∉ first) (noSecond : '/' ∉ second)
    (split : path = first ++ '/' :: (second ++ '/' :: (name ++ '/' :: id)))
    (noSlash : '/' ∉ name) : entityParts path = (name, id) := by
  have firstFound := @find_slash_behind path [] first _ 0 split rfl noFirst
  have secondFound := @find_slash_behind path (first ++ ['/']) second (name ++ '/' :: id)
    (first.length + 1) (by simp [split]) (by simp) noSecond
  have thirdFound := @find_slash_behind path (first ++ '/' :: (second ++ ['/'])) name id
    (first.length + 1 + second.length + 1) (by simp [split])
    (by simp only [List.length_append, List.length_cons, List.length_nil]; omega) noSlash
  simp only [entityParts, firstFound, Nat.zero_add, following, secondFound, thirdFound]
  have front : path = (first ++ '/' :: (second ++ ['/'])) ++ (name ++ '/' :: id) := by simp [split]
  have length : (first ++ '/' :: (second ++ ['/'])).length =
      first.length + 1 + second.length + 1 := by
    simp only [List.length_append, List.length_cons, List.length_nil]
    omega
  have named : path.drop (first.length + 1 + second.length + 1) = name ++ '/' :: id := by
    rw [front, ← length, List.drop_left]
  have between : first.length + 1 + second.length + 1 + name.length -
      (first.length + 1 + second.length) - 1 = name.length := by omega
  have behind : path.drop (first.length + 1 + second.length + 1 + name.length + 1) = id := by
    rw [Nat.add_assoc _ name.length, ← List.drop_drop, named, ← List.drop_drop, List.drop_left]
    rfl
  rw [named, between, behind, List.take_left]

end Parts

def entityPath (route name : FileName) (id : Option FileName) : Bytes :=
  '/' :: (route.name ++ '/' :: (name.name ++
    match id with
    | none => []
    | some id => '/' :: id.name))

structure EntityRequest where
  request : HttpRequest
  route : FileName
  name : FileName
  id : Option FileName
  path : request.path = entityPath route name id
  nameNoNull : '\x00' ∉ name.name
  idNoNull : '\x00' ∉ (id.map FileName.name).getD []

theorem parts_of_request (event : EntityRequest) :
    entityParts event.request.path = (event.name.name, (event.id.map FileName.name).getD []) := by
  have noFirst : '/' ∉ ([] : Bytes) := List.not_mem_nil
  cases isId : event.id with
  | none =>
      apply entity_parts_name noFirst event.route.noSlash _ event.name.noSlash
      rw [event.path, isId, entityPath, List.append_nil]
      rfl
  | some id =>
      apply entity_parts_id noFirst event.route.noSlash _ event.name.noSlash
      rw [event.path, isId, entityPath]
      rfl

/-! ## One request -/

namespace Store

/-- The id that follows those of an entity. -/
def newId (ids : List FileName) : FileName :=
  numberName ((RealFilesystem.maxId (ids.map FileName.name) + 1).bmod (2 ^ 32))

theorem new_id_no_null (ids : List FileName) : '\x00' ∉ (newId ids).name := number_no_null _

end Store

open EntityHandler in
/-- How a request may be answered over a store, and the store after it. -/
inductive Serves (baseDir : Bytes) (event : EntityRequest) (store : Store) :
    HttpResponse → Store → Prop
  | posted {ids : List FileName} (post : event.request.method = "POST".toList)
      (lists : store.Lists event.name ids) (valid : ValidId (Store.newId ids).name) :
      Serves baseDir event store (idResponse (Store.newId ids).name)
        (store.set event.name (Store.newId ids) (some event.request.body))
  | postRefused {ids : List FileName} (post : event.request.method = "POST".toList)
      (lists : store.Lists event.name ids) (invalid : ¬ ValidId (Store.newId ids).name) :
      Serves baseDir event store (caught (invalidId (Store.newId ids).name)) store
  | listed {ids : List FileName} (get : event.request.method = "GET".toList)
      (noId : event.id = none) (lists : store.Lists event.name ids) :
      Serves baseDir event store (jsonResponse (listing (ids.map FileName.name))) store
  | got {id : FileName} {contents : Bytes} (get : event.request.method = "GET".toList)
      (isId : event.id = some id) (stored : store (event.name, id) = some contents) :
      Serves baseDir event store (jsonResponse contents) store
  | notGot {id : FileName} (get : event.request.method = "GET".toList)
      (isId : event.id = some id) (absent : store (event.name, id) = none) :
      Serves baseDir event store (bareResponse .notFound (cString ("No such entity or ID: ".toList ++
        (EntityPayload.mk baseDir event.name.name).makeName id.name))) store
  | put {id : FileName} (put : event.request.method = "PUT".toList) (isId : event.id = some id)
      (valid : ValidId id.name) :
      Serves baseDir event store (idResponse id.name)
        (store.set event.name id (some event.request.body))
  | putRefused {id : FileName} (put : event.request.method = "PUT".toList)
      (isId : event.id = some id) (invalid : ¬ ValidId id.name) :
      Serves baseDir event store (caught (invalidId id.name)) store
  | putNowhere (put : event.request.method = "PUT".toList) (noId : event.id = none) :
      Serves baseDir event store
        (bareResponse .badRequest "PUT request must specify an ID.".toList) store
  | deleted {id : FileName} {contents : Bytes} (delete : event.request.method = "DELETE".toList)
      (isId : event.id = some id) (stored : store (event.name, id) = some contents) :
      Serves baseDir event store (jsonResponse "\x7b\"status\": \"deleted\"\x7d".toList)
        (store.set event.name id none)
  | notDeleted {id : FileName} (delete : event.request.method = "DELETE".toList)
      (isId : event.id = some id) (absent : store (event.name, id) = none) :
      Serves baseDir event store (bareResponse .notFound (cString ("Could not remove file: ".toList ++
        (EntityPayload.mk baseDir event.name.name).makePathTo id.name))) store
  | deletedNowhere (delete : event.request.method = "DELETE".toList) (noId : event.id = none) :
      Serves baseDir event store
        (bareResponse .badRequest "DELETE request must specify an ID.".toList) store
  | unsupported (noPost : event.request.method ≠ "POST".toList)
      (noGet : event.request.method ≠ "GET".toList) (noPut : event.request.method ≠ "PUT".toList)
      (noDelete : event.request.method ≠ "DELETE".toList) :
      Serves baseDir event store (bareResponse .badRequest "Unsupported HTTP method.".toList) store

/-- What a response that is no success leaves, and what another one may change. -/
structure Frame (event : EntityRequest) (store : Store) (response : HttpResponse) (after : Store) :
    Prop where
  refused : response.status ≠ .ok → after = store
  elsewhere : ∀ name id, after (name, id) ≠ store (name, id) → name = event.name ∧
    (event.request.method = "POST".toList ∧ response = idResponse id.name ∨
      event.request.method ∈ ["PUT".toList, "DELETE".toList] ∧ event.id = some id)

theorem set_changes {store : Store} {name id : FileName} {contents : Option Bytes}
    {key : FileName × FileName} (changed : store.set name id contents key ≠ store key) :
    key = (name, id) := by
  by_contra other
  exact changed (Store.set_other store contents other)

theorem serves_frame {baseDir : Bytes} {event : EntityRequest} {store after : Store}
    {response : HttpResponse} (serves : Serves baseDir event store response after) :
    Frame event store response after := by
  cases serves with
  | posted post =>
      refine ⟨fun failed => absurd rfl failed, fun name id changed => ?_⟩
      cases set_changes changed
      exact ⟨rfl, Or.inl ⟨post, rfl⟩⟩
  | put put isId =>
      refine ⟨fun failed => absurd rfl failed, fun name id changed => ?_⟩
      cases set_changes changed
      exact ⟨rfl, Or.inr ⟨by simp [put], isId⟩⟩
  | deleted delete isId =>
      refine ⟨fun failed => absurd rfl failed, fun name id changed => ?_⟩
      cases set_changes changed
      exact ⟨rfl, Or.inr ⟨by simp [delete], isId⟩⟩
  | _ => exact ⟨fun _ => rfl, fun _ _ changed => absurd rfl changed⟩

/-! ## One request on the disk -/

def EntityHandler.answer : Except Thrown HttpResponse → HttpResponse
  | .ok response => response
  | .error thrown => EntityHandler.caught thrown

theorem answer_ok {outcome : Except Thrown HttpResponse} {response : HttpResponse}
    (answered : response = EntityHandler.answer outcome) (success : response.status = .ok) :
    outcome = .ok response := by
  cases outcome with
  | ok returned =>
      rw [answered]
      rfl
  | error thrown =>
      rw [answered] at success
      cases thrown <;> cases success

section Requests

open Disk EntityHandler

variable {baseDir : Bytes} {disk : Disk} {store : Store}

theorem run_locked {request : HttpRequest} {outcome : Except Thrown HttpResponse} {next : Disk}
    (served : runOn (serve baseDir request) disk = (outcome, next)) :
    runOn (ExceptT.lift (locked baseDir request)) disk = (.ok (answer outcome), next) := by
  have ran : Program.exec perform (locked baseDir request) disk = (answer outcome, next) := by
    rw [locked, Program.exec_bind]
    change Program.exec perform (serve baseDir request).run disk = _ at served
    rw [served]
    cases outcome <;> rfl
  have lifted := Program.exec_bind perform (locked baseDir request)
    (fun response => pure (Except.ok response : Except Thrown HttpResponse)) disk
  rw [ran] at lifted
  exact lifted

theorem run_handle {request : HttpRequest} {outcome : Except Thrown HttpResponse}
    {created next : Disk}
    (made : runOn (RealFilesystem.create baseDir) disk = (.ok (), created))
    (served : runOn (serve baseDir request) created = (outcome, next)) :
    runOn (handleRequest baseDir request) disk = (.ok (answer outcome), next) := by
  rw [handleRequest, run_bind_ok made]
  exact run_locked served

theorem run_create_root (represents : Represents baseDir disk.tree store) :
    runOn (RealFilesystem.create baseDir) disk = (.ok (), disk) :=
  run_create_there represents.root

section Methods

variable {request : HttpRequest} {name id : Bytes}

theorem serve_post (parts : entityParts request.path = (name, id))
    (post : request.method = "POST".toList) :
    serve baseDir request = (do
      let newId ← RealFilesystem.nextId ⟨baseDir, name⟩
      RealFilesystem.write ⟨baseDir, name⟩ newId request.body
      pure (idResponse newId)) := by
  simp only [serve, parts, post, if_true]

theorem serve_list (parts : entityParts request.path = (name, []))
    (get : request.method = "GET".toList) :
    serve baseDir request = (do
      let ids ← RealFilesystem.listIds ⟨baseDir, name⟩
      pure (jsonResponse (listing ids))) := by
  simp [serve, parts, get]

theorem serve_read (parts : entityParts request.path = (name, id))
    (get : request.method = "GET".toList) (isId : id ≠ []) :
    serve baseDir request = (do
      let contents ← RealFilesystem.read ⟨baseDir, name⟩ id
      pure (jsonResponse contents)) := by
  simp [serve, parts, get, isId]

theorem serve_put (parts : entityParts request.path = (name, id))
    (put : request.method = "PUT".toList) (isId : id ≠ []) :
    serve baseDir request = (do
      RealFilesystem.write ⟨baseDir, name⟩ id request.body
      pure (idResponse id)) := by
  simp [serve, parts, put, isId]

theorem serve_put_nowhere (parts : entityParts request.path = (name, []))
    (put : request.method = "PUT".toList) :
    serve baseDir request = throw (.other "PUT request must specify an ID.".toList) := by
  simp [serve, parts, put]

theorem serve_delete (parts : entityParts request.path = (name, id))
    (delete : request.method = "DELETE".toList) (isId : id ≠ []) :
    serve baseDir request = (do
      RealFilesystem.remove ⟨baseDir, name⟩ id
      pure (jsonResponse "\x7b\"status\": \"deleted\"\x7d".toList)) := by
  simp [serve, parts, delete, isId]

theorem serve_delete_nowhere (parts : entityParts request.path = (name, []))
    (delete : request.method = "DELETE".toList) :
    serve baseDir request = throw (.other "DELETE request must specify an ID.".toList) := by
  simp [serve, parts, delete]

theorem serve_other (noPost : request.method ≠ "POST".toList)
    (noGet : request.method ≠ "GET".toList) (noPut : request.method ≠ "PUT".toList)
    (noDelete : request.method ≠ "DELETE".toList) :
    serve baseDir request = pure (bareResponse .badRequest "Unsupported HTTP method.".toList) := by
  simp only [serve, if_neg noPost, if_neg noGet, if_neg noPut, if_neg noDelete]

end Methods

/-- What one request does is what the store allows. -/
def Follows (baseDir : Bytes) (event : EntityRequest) (disk : Disk) (store : Store) : Prop :=
  ∃ (outcome : Except Thrown HttpResponse) (next : Disk) (after : Store),
    runOn (serve baseDir event.request) disk = (outcome, next) ∧
      Serves baseDir event store (answer outcome) after ∧
      Represents baseDir next.tree after

variable {event : EntityRequest}

theorem parts_without_id (noId : event.id = none) :
    entityParts event.request.path = (event.name.name, []) := by
  rw [parts_of_request, noId]
  rfl

theorem parts_with_id {id : FileName} (isId : event.id = some id) :
    entityParts event.request.path = (event.name.name, id.name) := by
  rw [parts_of_request, isId]
  rfl

theorem id_no_null {id : FileName} (isId : event.id = some id) : '\x00' ∉ id.name := by
  have noNull := event.idNoNull
  rw [isId] at noNull
  exact noNull

theorem post_follows (represents : Represents baseDir disk.tree store)
    (post : event.request.method = "POST".toList) : Follows baseDir event disk store := by
  obtain ⟨ids, listed, ran, sameTree, lists⟩ := list_stored represents event.nameNoNull
  have stillThere : Represents baseDir listed.tree store := by
    rw [sameTree]
    exact represents
  have numbered : runOn (RealFilesystem.nextId ⟨baseDir, event.name.name⟩) disk =
      (.ok (Store.newId ids).name, listed) := run_next_id ran
  unfold Follows
  rw [serve_post (parts_of_request event) post, run_bind_ok numbered]
  by_cases valid : ValidId (Store.newId ids).name
  · obtain ⟨next, written, holds⟩ :=
      write_valid stillThere event.nameNoNull (Store.new_id_no_null ids) event.request.body valid
    rw [run_bind_ok written]
    exact ⟨_, _, _, run_pure _ _, Serves.posted post lists valid, holds⟩
  · rw [run_bind_error (write_refused baseDir listed event.name event.request.body valid)]
    exact ⟨_, _, _, rfl, Serves.postRefused post lists valid, stillThere⟩

theorem get_follows (represents : Represents baseDir disk.tree store)
    (get : event.request.method = "GET".toList) : Follows baseDir event disk store := by
  unfold Follows
  cases isId : event.id with
  | none =>
      obtain ⟨ids, listed, ran, sameTree, lists⟩ := list_stored represents event.nameNoNull
      rw [serve_list (parts_without_id isId) get, run_bind_ok ran]
      refine ⟨_, _, _, run_pure _ _, Serves.listed get isId lists, ?_⟩
      rw [sameTree]
      exact represents
  | some id =>
      rw [serve_read (parts_with_id isId) get id.nonempty]
      cases stored : store (event.name, id) with
      | none =>
          rw [run_bind_error (read_absent represents event.nameNoNull (id_no_null isId) stored)]
          exact ⟨_, _, _, rfl, Serves.notGot get isId stored, represents⟩
      | some contents =>
          rw [run_bind_ok (read_stored represents event.nameNoNull (id_no_null isId) stored)]
          exact ⟨_, _, _, run_pure _ _, Serves.got get isId stored, represents⟩

theorem put_follows (represents : Represents baseDir disk.tree store)
    (put : event.request.method = "PUT".toList) : Follows baseDir event disk store := by
  unfold Follows
  cases isId : event.id with
  | none =>
      rw [serve_put_nowhere (parts_without_id isId) put]
      exact ⟨_, _, _, run_throw _ _, Serves.putNowhere put isId, represents⟩
  | some id =>
      rw [serve_put (parts_with_id isId) put id.nonempty]
      by_cases valid : ValidId id.name
      · obtain ⟨next, written, holds⟩ :=
          write_valid represents event.nameNoNull (id_no_null isId) event.request.body valid
        rw [run_bind_ok written]
        exact ⟨_, _, _, run_pure _ _, Serves.put put isId valid, holds⟩
      · rw [run_bind_error (write_refused baseDir disk event.name event.request.body valid)]
        exact ⟨_, _, _, rfl, Serves.putRefused put isId valid, represents⟩

theorem delete_follows (represents : Represents baseDir disk.tree store)
    (delete : event.request.method = "DELETE".toList) : Follows baseDir event disk store := by
  unfold Follows
  cases isId : event.id with
  | none =>
      rw [serve_delete_nowhere (parts_without_id isId) delete]
      exact ⟨_, _, _, run_throw _ _, Serves.deletedNowhere delete isId, represents⟩
  | some id =>
      rw [serve_delete (parts_with_id isId) delete id.nonempty]
      cases stored : store (event.name, id) with
      | none =>
          rw [run_bind_error (remove_absent represents event.nameNoNull (id_no_null isId) stored)]
          exact ⟨_, _, _, rfl, Serves.notDeleted delete isId stored, represents⟩
      | some contents =>
          obtain ⟨next, removed, holds⟩ := remove_stored represents event.nameNoNull (id_no_null isId) stored
          rw [run_bind_ok removed]
          exact ⟨_, _, _, run_pure _ _, Serves.deleted delete isId stored, holds⟩

theorem request_follows (represents : Represents baseDir disk.tree store)
    (event : EntityRequest) : Follows baseDir event disk store := by
  by_cases post : event.request.method = "POST".toList
  · exact post_follows represents post
  by_cases get : event.request.method = "GET".toList
  · exact get_follows represents get
  by_cases put : event.request.method = "PUT".toList
  · exact put_follows represents put
  by_cases delete : event.request.method = "DELETE".toList
  · exact delete_follows represents delete
  unfold Follows
  rw [serve_other post get put delete]
  exact ⟨_, _, _, run_pure _ _, Serves.unsupported post get put delete, represents⟩

end Requests

/-! ## Whole runs -/

def EntityHandler.handleAll (baseDir : Bytes) (requests : List HttpRequest) (disk : Disk) :
    List (Except Thrown HttpResponse) × Disk :=
  Program.inTurn Disk.perform (requests.map fun request =>
    (EntityHandler.handleRequest baseDir request).run) disk

/-- A step of the store: the handler answers, as the store allows. -/
def StoreStep (baseDir : Bytes) (store : Store)
    (exchange : EntityRequest × Except Thrown HttpResponse) (after : Store) : Prop :=
  ∃ response, exchange.2 = .ok response ∧ Serves baseDir exchange.1 store response after ∧
    Frame exchange.1 store response after

theorem handled_by_store {baseDir : Bytes} (event : EntityRequest) (disk : Disk) (store : Store)
    (represents : Represents baseDir disk.tree store) :
    ∃ after,
      StoreStep baseDir store (event, (Program.exec Disk.perform
        (EntityHandler.handleRequest baseDir event.request).run disk).1) after ∧
      Represents baseDir (Program.exec Disk.perform
        (EntityHandler.handleRequest baseDir event.request).run disk).2.tree after := by
  obtain ⟨outcome, next, after, served, serves, holds⟩ := request_follows represents event
  have handled := run_handle (run_create_root represents) served
  change Program.exec Disk.perform _ disk = _ at handled
  rw [handled]
  exact ⟨after, ⟨_, rfl, serves, serves_frame serves⟩, holds⟩

theorem all_handled_by_store {baseDir : Bytes} {disk : Disk} {store : Store}
    (represents : Represents baseDir disk.tree store) (requests : List EntityRequest) :
    ∃ after,
      Program.Steps (StoreStep baseDir) store (requests.zip
        (EntityHandler.handleAll baseDir (requests.map EntityRequest.request) disk).1) after ∧
      Represents baseDir
        (EntityHandler.handleAll baseDir (requests.map EntityRequest.request) disk).2.tree
        after := by
  rw [EntityHandler.handleAll, List.map_map]
  exact Program.in_turn_follows handled_by_store requests represents

theorem handle_all_length (baseDir : Bytes) (requests : List HttpRequest) (disk : Disk) :
    (EntityHandler.handleAll baseDir requests disk).1.length = requests.length := by
  rw [EntityHandler.handleAll, Program.in_turn_length, List.length_map]

/-- Whatever the requests are, from an empty directory on each of them has an answer,
which is one of the store, and the files that are left are those of the store. -/
theorem handler_refines_store (baseDir : Bytes) (disk : Disk) (noNull : '\x00' ∉ baseDir)
    (emptyBase : EmptyBase baseDir disk.tree) (requests : List EntityRequest) :
    (EntityHandler.handleAll baseDir (requests.map EntityRequest.request) disk).1.length =
        requests.length ∧
      ∃ store,
        Program.Steps (StoreStep baseDir) Store.empty (requests.zip
          (EntityHandler.handleAll baseDir (requests.map EntityRequest.request) disk).1) store ∧
        Represents baseDir
          (EntityHandler.handleAll baseDir (requests.map EntityRequest.request) disk).2.tree
          store := by
  constructor
  · rw [handle_all_length, List.length_map]
  · exact all_handled_by_store (empty_represents noNull emptyBase) requests

def apiName : FileName := ⟨"api".toList, by decide, by decide, by decide, by decide⟩

def itemMessage (method body : Bytes) (id : Option FileName) : HttpRequest where
  method := method
  path := entityPath apiName itemName id
  version := "HTTP/1.1".toList
  headers := OrderedMap.empty
  body := body

theorem item_name_no_null : '\x00' ∉ itemName.name := by decide

theorem no_id_no_null : '\x00' ∉ ((none : Option FileName).map FileName.name).getD [] := by decide

def collectionRequest (method body : Bytes) : EntityRequest where
  request := itemMessage method body none
  route := apiName
  name := itemName
  id := none
  path := rfl
  nameNoNull := item_name_no_null
  idNoNull := no_id_no_null

def itemRequest (method body : Bytes) (id : FileName) (idNoNull : '\x00' ∉ id.name) :
    EntityRequest where
  request := itemMessage method body (some id)
  route := apiName
  name := itemName
  id := some id
  path := rfl
  nameNoNull := item_name_no_null
  idNoNull := idNoNull

def twelveName : FileName := ⟨"12".toList, by decide, by decide, by decide, by decide⟩

def itemRequests : List EntityRequest :=
  [itemRequest "PUT".toList "a".toList twelveName (by decide),
    collectionRequest "POST".toList "b".toList, collectionRequest "GET".toList [],
    itemRequest "PUT".toList "c".toList itemName item_name_no_null,
    itemRequest "DELETE".toList [] twelveName (by decide),
    itemRequest "GET".toList [] twelveName (by decide)]

theorem handler_refines_store_items :
    (EntityHandler.handleAll "/data".toList (itemRequests.map EntityRequest.request)
        (emptyDisk "data".toList)).1.map (fun answer => answer.toOption.map HttpResponse.body) =
      [some "\x7b\"id\": \"12\"\x7d".toList, some "\x7b\"id\": \"13\"\x7d".toList,
        some "[\"13\",\"12\"]".toList, some "Invalid id (x): ID must be a positive integer".toList,
        some "\x7b\"status\": \"deleted\"\x7d".toList,
        some "No such entity or ID: x/12".toList] ∧
    ∃ store,
      Program.Steps (StoreStep "/data".toList) Store.empty (itemRequests.zip
        (EntityHandler.handleAll "/data".toList (itemRequests.map EntityRequest.request)
          (emptyDisk "data".toList)).1) store ∧
      Represents "/data".toList
        (EntityHandler.handleAll "/data".toList (itemRequests.map EntityRequest.request)
          (emptyDisk "data".toList)).2.tree store := by
  constructor
  · decide +kernel
  · exact (handler_refines_store "/data".toList (emptyDisk "data".toList) (by decide)
      empty_disk_base itemRequests).2

/-- A null byte in an id hides what is behind it: the file of another key is written. -/
theorem null_byte_hides_rest :
    ¬ ∀ (baseDir : Bytes) (disk : Disk), '\x00' ∉ baseDir → EmptyBase baseDir disk.tree →
      ∀ route name first second : FileName, first ≠ second → ValidId first.name →
        ValidId second.name → ∀ put other get : HttpRequest,
          put.method = "PUT".toList → put.path = entityPath route name (some first) →
          other.method = "PUT".toList → other.path = entityPath route name (some second) →
          get.method = "GET".toList → get.path = entityPath route name (some first) →
            (EntityHandler.handleAll baseDir [put, other, get] disk).1 =
              [.ok (idResponse first.name), .ok (idResponse second.name),
                .ok (jsonResponse put.body)] := by
  intro always
  have one : stoi "1".toList = .ok 1 := by decide +kernel
  have oneBehind : stoi "1\x00a".toList = .ok 1 := by decide +kernel
  let put := itemMessage "PUT".toList "a".toList (some oneName)
  let other : HttpRequest :=
    { put with path := entityPath apiName itemName (some nullName), body := "b".toList }
  let get := itemMessage "GET".toList [] (some oneName)
  have answers := always "/data".toList (emptyDisk "data".toList) (by decide) empty_disk_base
    apiName itemName oneName nullName (by decide) ⟨1, one, by decide⟩ ⟨1, oneBehind, by decide⟩
    put other get rfl rfl rfl rfl rfl rfl
  have last := congrArg (fun answers => (answers.getLast?.bind Except.toOption).map
    HttpResponse.body) answers
  revert last
  decide +kernel

end RestfulWebserver.Entity
