import RestfulWebserver.Entity.Store

/-!
# `MockFilesystem`

The file system of the handler tests, a map of maps, against the real one: call
by call they return the same or throw the same kind of exception.
-/

namespace RestfulWebserver.Entity

open RestfulWebserver.Library RestfulWebserver.Http

abbrev MockData := OrderedMap Bytes (OrderedMap Bytes Bytes)

abbrev MockM := ExceptT Thrown (StateM MockData)

namespace MockFilesystem

/-- `data_[name]`, where an entity that is not there is an empty one. -/
def values (data : MockData) (name : Bytes) : OrderedMap Bytes Bytes :=
  (data.find? name).getD OrderedMap.empty

def checkId (id : Bytes) : MockM Unit :=
  match stoi id with
  | .error _ => throw (invalidId id)
  | .ok numericId => if numericId ≤ 0 then throw (invalidId id) else pure ()

def existsAt (entity : EntityPayload) (id : Bytes) : MockM Bool := do
  let data ← get
  if !data.contains entity.name then pure false
  else pure ((values data entity.name).contains id)

def read (entity : EntityPayload) (id : Bytes) : MockM Bytes := do
  if !(← existsAt entity id) then
    throw (.notFound ("MockFilesystem: No such entity or ID: ".toList ++ entity.makeName id))
  let data ← get
  pure (((values data entity.name).find? id).getD [])

def write (entity : EntityPayload) (id contents : Bytes) : MockM Unit := do
  checkId id
  let data ← get
  set (data.assign entity.name ((values data entity.name).assign id contents))

def remove (entity : EntityPayload) (id : Bytes) : MockM Unit := do
  if !(← existsAt entity id) then
    throw (.notFound ("MockFilesystem: Could not remove file: ".toList ++ entity.makeName id))
  let data ← get
  set (data.assign entity.name ((values data entity.name).erase id))

def listIds (entity : EntityPayload) : MockM (List Bytes) := do
  let data ← get
  if data.contains entity.name then pure ((values data entity.name).entries.map Prod.fst)
  else pure []

def nextId (entity : EntityPayload) : MockM Bytes := do
  let ids ← listIds entity
  pure (RealFilesystem.intToString ((RealFilesystem.maxId ids + 1).bmod (2 ^ 32)))

end MockFilesystem

/-! ## Calls of the interface -/

inductive Operation where
  | existsAt (name id : FileName)
  | read (name id : FileName)
  | write (name id : FileName) (contents : Bytes)
  | remove (name id : FileName)
  | listIds (name : FileName)
  | nextId (name : FileName)

inductive Outcome where
  | found (isThere : Bool)
  | contents (bytes : Bytes)
  | done
  | listed (ids : List Bytes)
  | number (id : Bytes)

namespace Operation

def onDisk (path : Bytes) : Operation → FileM Outcome
  | existsAt name id => .found <$> RealFilesystem.existsAt ⟨path, name.name⟩ id.name
  | read name id => .contents <$> RealFilesystem.read ⟨path, name.name⟩ id.name
  | write name id contents => do
      RealFilesystem.write ⟨path, name.name⟩ id.name contents
      pure .done
  | remove name id => do
      RealFilesystem.remove ⟨path, name.name⟩ id.name
      pure .done
  | listIds name => .listed <$> RealFilesystem.listIds ⟨path, name.name⟩
  | nextId name => .number <$> RealFilesystem.nextId ⟨path, name.name⟩

def onMock (path : Bytes) : Operation → MockM Outcome
  | existsAt name id => .found <$> MockFilesystem.existsAt ⟨path, name.name⟩ id.name
  | read name id => .contents <$> MockFilesystem.read ⟨path, name.name⟩ id.name
  | write name id contents => do
      MockFilesystem.write ⟨path, name.name⟩ id.name contents
      pure .done
  | remove name id => do
      MockFilesystem.remove ⟨path, name.name⟩ id.name
      pure .done
  | listIds name => .listed <$> MockFilesystem.listIds ⟨path, name.name⟩
  | nextId name => .number <$> MockFilesystem.nextId ⟨path, name.name⟩

/-- The system sees the names of the call from end to end. -/
def NoNull : Operation → Prop
  | existsAt name id => '\x00' ∉ name.name ∧ '\x00' ∉ id.name
  | read name id => '\x00' ∉ name.name ∧ '\x00' ∉ id.name
  | write name id _ => '\x00' ∉ name.name ∧ '\x00' ∉ id.name
  | remove name id => '\x00' ∉ name.name ∧ '\x00' ∉ id.name
  | listIds name => '\x00' ∉ name.name
  | nextId name => '\x00' ∉ name.name

instance : DecidablePred NoNull := fun operation => by
  cases operation <;> unfold NoNull <;> infer_instance

end Operation

def mockCalls (path : Bytes) : List Operation → MockData → List (Except Thrown Outcome)
  | [], _ => []
  | operation :: later, data =>
      let (outcome, next) := (operation.onMock path).run.run data
      outcome :: mockCalls path later next

def diskCalls (path : Bytes) (operations : List Operation) (disk : Disk) :
    List (Except Thrown Outcome) :=
  (Program.inTurn Disk.perform (operations.map fun operation => (operation.onDisk path).run) disk).1

/-- The same result up to the order of a listing, or the same kind of exception. -/
inductive Agree : Except Thrown Outcome → Except Thrown Outcome → Prop
  | same (outcome : Outcome) : Agree (.ok outcome) (.ok outcome)
  | listed {ids others : List Bytes} (perm : ids.Perm others) :
      Agree (.ok (.listed ids)) (.ok (.listed others))
  | notFound (what other : Bytes) : Agree (.error (.notFound what)) (.error (.notFound other))
  | invalidId (what other : Bytes) : Agree (.error (.invalidId what)) (.error (.invalidId other))

/-! ## What a call is for -/

inductive Performs (store : Store) : Operation → Except Thrown Outcome → Store → Prop
  | found (name id : FileName) :
      Performs store (.existsAt name id) (.ok (.found (store (name, id)).isSome)) store
  | read {name id : FileName} {contents : Bytes} (stored : store (name, id) = some contents) :
      Performs store (.read name id) (.ok (.contents contents)) store
  | notRead {name id : FileName} (absent : store (name, id) = none) (what : Bytes) :
      Performs store (.read name id) (.error (.notFound what)) store
  | written (name : FileName) {id : FileName} (contents : Bytes) (valid : ValidId id.name) :
      Performs store (.write name id contents) (.ok .done) (store.set name id (some contents))
  | notWritten (name : FileName) {id : FileName} (contents : Bytes) (invalid : ¬ ValidId id.name)
      (what : Bytes) :
      Performs store (.write name id contents) (.error (.invalidId what)) store
  | removed {name id : FileName} {contents : Bytes} (stored : store (name, id) = some contents) :
      Performs store (.remove name id) (.ok .done) (store.set name id none)
  | notRemoved {name id : FileName} (absent : store (name, id) = none) (what : Bytes) :
      Performs store (.remove name id) (.error (.notFound what)) store
  | listed {name : FileName} {ids : List FileName} (lists : store.Lists name ids) :
      Performs store (.listIds name) (.ok (.listed (ids.map FileName.name))) store
  | numbered {name : FileName} {ids : List FileName} (lists : store.Lists name ids) :
      Performs store (.nextId name) (.ok (.number (RealFilesystem.intToString
        ((RealFilesystem.maxId (ids.map FileName.name) + 1).bmod (2 ^ 32))))) store

theorem performs_agree {store after other : Store} {operation : Operation}
    {outcome result : Except Thrown Outcome} (first : Performs store operation outcome after)
    (second : Performs store operation result other) : Agree outcome result ∧ after = other := by
  cases first with
  | found name id =>
      cases second
      exact ⟨.same _, rfl⟩
  | read stored =>
      cases second with
      | read same =>
          rw [stored] at same
          cases same
          exact ⟨.same _, rfl⟩
      | notRead absent =>
          rw [stored] at absent
          cases absent
  | notRead absent what =>
      cases second with
      | read stored =>
          rw [stored] at absent
          cases absent
      | notRead _ other => exact ⟨.notFound what other, rfl⟩
  | written name contents valid =>
      cases second with
      | written => exact ⟨.same _, rfl⟩
      | notWritten _ _ invalid => exact absurd valid invalid
  | notWritten name contents invalid what =>
      cases second with
      | written _ _ valid => exact absurd valid invalid
      | notWritten _ _ _ other => exact ⟨.invalidId what other, rfl⟩
  | removed stored =>
      cases second with
      | removed => exact ⟨.same _, rfl⟩
      | notRemoved absent =>
          rw [stored] at absent
          cases absent
  | notRemoved absent what =>
      cases second with
      | removed stored =>
          rw [stored] at absent
          cases absent
      | notRemoved _ other => exact ⟨.notFound what other, rfl⟩
  | listed lists =>
      cases second with
      | listed same => exact ⟨.listed (Store.lists_perm lists same), rfl⟩
  | numbered lists =>
      cases second with
      | numbered same =>
          rw [Store.max_id_perm (Store.lists_perm lists same)]
          exact ⟨.same _, rfl⟩

section OnDisk

open Disk

theorem run_map {Result Other : Type} {program : FileM Result} {disk next : Disk} {result : Result}
    (onward : Result → Other) (ran : runOn program disk = (.ok result, next)) :
    runOn (onward <$> program) disk = (.ok (onward result), next) := by
  rw [← bind_pure_comp, run_bind_ok ran]
  rfl

theorem run_map_error {Result Other : Type} {program : FileM Result} {disk next : Disk}
    {thrown : Thrown} (onward : Result → Other) (ran : runOn program disk = (.error thrown, next)) :
    runOn (onward <$> program) disk = (.error thrown, next) := by
  rw [← bind_pure_comp, run_bind_error ran]

theorem disk_performs {path : Bytes} {disk : Disk} {store : Store}
    (represents : Represents path disk.tree store) {operation : Operation}
    (noNull : operation.NoNull) :
    ∃ (outcome : Except Thrown Outcome) (next : Disk) (after : Store),
      runOn (operation.onDisk path) disk = (outcome, next) ∧
        Performs store operation outcome after ∧
        Represents path next.tree after := by
  cases operation with
  | existsAt name id =>
      exact ⟨_, _, _, run_map _ (exists_in_store represents noNull.1 noNull.2), .found name id,
        represents⟩
  | read name id =>
      cases stored : store (name, id) with
      | none =>
          exact ⟨_, _, _, run_map_error _ (read_absent represents noNull.1 noNull.2 stored),
            .notRead stored _, represents⟩
      | some contents =>
          exact ⟨_, _, _, run_map _ (read_stored represents noNull.1 noNull.2 stored),
            .read stored, represents⟩
  | write name id contents =>
      by_cases valid : ValidId id.name
      · obtain ⟨next, written, holds⟩ :=
          write_valid represents noNull.1 noNull.2 contents valid
        exact ⟨_, _, _, run_bind_ok written, .written name contents valid, holds⟩
      · exact ⟨_, _, _, run_bind_error (write_refused path disk name contents valid),
          .notWritten name contents valid _, represents⟩
  | remove name id =>
      cases stored : store (name, id) with
      | none =>
          exact ⟨_, _, _, run_bind_error (remove_absent represents noNull.1 noNull.2 stored),
            .notRemoved stored _, represents⟩
      | some contents =>
          obtain ⟨next, removed, holds⟩ := remove_stored represents noNull.1 noNull.2 stored
          exact ⟨_, _, _, run_bind_ok removed, .removed stored, holds⟩
  | listIds name =>
      obtain ⟨ids, next, ran, sameTree, lists⟩ := @list_stored _ _ _ name represents noNull
      refine ⟨_, _, _, run_map _ ran, .listed lists, ?_⟩
      rw [sameTree]
      exact represents
  | nextId name =>
      obtain ⟨ids, next, ran, sameTree, lists⟩ := @list_stored _ _ _ name represents noNull
      refine ⟨_, _, _, run_map _ (run_next_id ran), .numbered lists, ?_⟩
      rw [sameTree]
      exact represents

end OnDisk

/-! ## The mock over a store -/

/-- The map of maps holds what the store has, under file names only. -/
structure MockHolds (data : MockData) (store : Store) : Prop where
  stored : ∀ name id : FileName,
    (MockFilesystem.values data name.name).find? id.name = store (name, id)
  named : ∀ (name : FileName) (id contents : Bytes),
    (MockFilesystem.values data name.name).find? id = some contents →
      ∃ entry : FileName, entry.name = id

namespace MockFilesystem

variable {data : MockData} {store : Store} {path : Bytes}

theorem empty_holds : MockHolds OrderedMap.empty Store.empty := ⟨fun _ _ => rfl, nofun⟩

theorem values_absent {entity : EntityPayload} (absent : data.contains entity.name = false) :
    values data entity.name = OrderedMap.empty := by
  rw [values, OrderedMap.find_none_of_not_contains absent]
  rfl

theorem run_exists (data : MockData) (entity : EntityPayload) (id : Bytes) :
    (existsAt entity id).run.run data = (.ok ((values data entity.name).contains id), data) := by
  have entered : (existsAt entity id).run.run data =
      (if !data.contains entity.name then pure false
        else pure ((values data entity.name).contains id) : MockM Bool).run.run data := rfl
  cases there : data.contains entity.name with
  | false =>
      rw [entered, there, values_absent there]
      rfl
  | true =>
      rw [entered, there]
      rfl

theorem run_list (data : MockData) (entity : EntityPayload) :
    (listIds entity).run.run data =
      (.ok ((values data entity.name).entries.map Prod.fst), data) := by
  have entered : (listIds entity).run.run data =
      (if data.contains entity.name then pure ((values data entity.name).entries.map Prod.fst)
        else pure [] : MockM (List Bytes)).run.run data := rfl
  cases there : data.contains entity.name with
  | false =>
      rw [entered, there, values_absent there]
      rfl
  | true =>
      rw [entered, there]
      rfl

theorem bind_ok {Result Other : Type} {program : MockM Result} {onward : Result → MockM Other}
    {data next : MockData} {result : Result} (ran : program.run.run data = (.ok result, next)) :
    (program >>= onward).run.run data = (onward result).run.run next := by
  change (match program.run.run data with
    | (outcome, next) => (ExceptT.bindCont onward outcome) next) = _
  rw [ran]
  rfl

theorem bind_error {Result Other : Type} {program : MockM Result} {onward : Result → MockM Other}
    {data next : MockData} {thrown : Thrown}
    (ran : program.run.run data = (.error thrown, next)) :
    (program >>= onward).run.run data = (.error thrown, next) := by
  change (match program.run.run data with
    | (outcome, next) => (ExceptT.bindCont onward outcome) next) = _
  rw [ran]
  rfl

theorem map_ok {Result Other : Type} {program : MockM Result} {data next : MockData}
    {result : Result} (onward : Result → Other)
    (ran : program.run.run data = (.ok result, next)) :
    (onward <$> program).run.run data = (.ok (onward result), next) := by
  rw [← bind_pure_comp, bind_ok ran]
  rfl

theorem map_error {Result Other : Type} {program : MockM Result} {data next : MockData}
    {thrown : Thrown} (onward : Result → Other)
    (ran : program.run.run data = (.error thrown, next)) :
    (onward <$> program).run.run data = (.error thrown, next) := by
  rw [← bind_pure_comp, bind_error ran]

theorem check_id_valid {id : Bytes} (valid : ValidId id) : checkId id = pure () :=
  checked_valid valid _ _

theorem check_id_invalid {id : Bytes} (invalid : ¬ ValidId id) :
    checkId id = throw (invalidId id) :=
  checked_invalid invalid _ _

theorem contains_stored (holds : MockHolds data store) (name id : FileName) :
    (values data name.name).contains id.name = (store (name, id)).isSome := by
  rw [OrderedMap.contains, holds.stored]

theorem lists_stored (holds : MockHolds data store) (name : FileName) :
    ∃ ids : List FileName, store.Lists name ids ∧
      (values data name.name).entries.map Prod.fst = ids.map FileName.name := by
  let keys := (values data name.name).entries.map Prod.fst
  have named : ∀ key ∈ keys, (Tree.fileName key).isSome = true := by
    intro key member
    rw [OrderedMap.mem_keys_iff, OrderedMap.contains_iff] at member
    obtain ⟨contents, found⟩ := member
    obtain ⟨entry, same⟩ := holds.named name key contents found
    rw [← same, Disk.file_name_of]
    rfl
  have same : (keys.filterMap Tree.fileName).map FileName.name = keys := by
    rw [Disk.filter_map_names]
    exact List.filter_eq_self.mpr named
  have distinct : ((keys.filterMap Tree.fileName).map FileName.name).Nodup := by
    rw [same]
    exact OrderedMap.keys_nodup _
  refine ⟨keys.filterMap Tree.fileName, ⟨distinct.of_map, fun id => ?_⟩, same.symm⟩
  rw [← contains_stored holds, ← OrderedMap.mem_keys_iff]
  have shown : id.name ∈ keys ↔ id.name ∈ (keys.filterMap Tree.fileName).map FileName.name := by
    rw [same]
  change _ ↔ id.name ∈ keys
  rw [shown, List.mem_map]
  constructor
  · intro member
    exact ⟨id, member, rfl⟩
  · intro ⟨entry, member, sameName⟩
    exact file_name_inj sameName ▸ member

/-- Where the values of one entity change under one id. -/
theorem holds_set (holds : MockHolds data store) (name id : FileName) (changed : Option Bytes)
    {inner : OrderedMap Bytes Bytes} (here : inner.find? id.name = changed)
    (elsewhere : ∀ other, other ≠ id.name →
      inner.find? other = (values data name.name).find? other) :
    MockHolds (data.assign name.name inner) (store.set name id changed) := by
  have valuesHere : values (data.assign name.name inner) name.name = inner := by
    rw [values, OrderedMap.find_assign_self]
    rfl
  have valuesElsewhere : ∀ other : FileName, other ≠ name →
      values (data.assign name.name inner) other.name = values data other.name := by
    intro other differs
    rw [values, OrderedMap.find_assign_other]
    · rfl
    · intro same
      exact differs (file_name_inj same).symm
  constructor
  · intro otherName otherId
    by_cases sameName : otherName = name
    · subst sameName
      rw [valuesHere]
      by_cases sameId : otherId = id
      · subst sameId
        rw [here, Store.set_here]
      · rw [elsewhere _ (fun same => sameId (file_name_inj same)), holds.stored, Store.set_other]
        intro same
        exact sameId (Prod.mk.inj same).2
    · rw [valuesElsewhere otherName sameName, holds.stored, Store.set_other]
      intro same
      exact sameName (Prod.mk.inj same).1
  · intro otherName otherId contents found
    by_cases sameName : otherName = name
    · subst sameName
      rw [valuesHere] at found
      by_cases sameId : otherId = id.name
      · exact ⟨id, sameId.symm⟩
      · rw [elsewhere _ sameId] at found
        exact holds.named otherName otherId contents found
    · rw [valuesElsewhere otherName sameName] at found
      exact holds.named otherName otherId contents found

section Operations

variable (holds : MockHolds data store) {name id : FileName}

include holds

theorem exists_stored : (existsAt ⟨path, name.name⟩ id.name).run.run data =
    (.ok (store (name, id)).isSome, data) := by
  rw [run_exists, contains_stored holds]

theorem read_stored {contents : Bytes} (stored : store (name, id) = some contents) :
    (read ⟨path, name.name⟩ id.name).run.run data = (.ok contents, data) := by
  have tested := @exists_stored _ _ path holds name id
  rw [stored] at tested
  rw [read, bind_ok tested]
  change (Except.ok (((values data name.name).find? id.name).getD []), data) = _
  rw [holds.stored, stored]
  rfl

theorem read_absent (absent : store (name, id) = none) :
    (read ⟨path, name.name⟩ id.name).run.run data =
      (.error (.notFound ("MockFilesystem: No such entity or ID: ".toList ++
        (EntityPayload.mk path name.name).makeName id.name)), data) := by
  have tested := @exists_stored _ _ path holds name id
  rw [absent] at tested
  rw [read, bind_ok tested]
  rfl

theorem write_valid (contents : Bytes) (valid : ValidId id.name) :
    ∃ next, (write ⟨path, name.name⟩ id.name contents).run.run data = (.ok (), next) ∧
      MockHolds next (store.set name id (some contents)) := by
  refine ⟨data.assign name.name ((values data name.name).assign id.name contents), ?_, ?_⟩
  · rw [write, check_id_valid valid]
    rfl
  · apply holds_set holds
    · exact OrderedMap.find_assign_self _ _ _
    · intro other differs
      exact OrderedMap.find_assign_other _ _ differs.symm

theorem remove_stored {contents : Bytes} (stored : store (name, id) = some contents) :
    ∃ next, (remove ⟨path, name.name⟩ id.name).run.run data = (.ok (), next) ∧
      MockHolds next (store.set name id none) := by
  have tested := @exists_stored _ _ path holds name id
  rw [stored] at tested
  refine ⟨data.assign name.name ((values data name.name).erase id.name), ?_, ?_⟩
  · rw [remove, bind_ok tested]
    rfl
  · apply holds_set holds
    · exact OrderedMap.find_erase_self _ _
    · intro other differs
      rw [OrderedMap.find_erase, if_neg differs.symm]

theorem remove_absent (absent : store (name, id) = none) :
    (remove ⟨path, name.name⟩ id.name).run.run data =
      (.error (.notFound ("MockFilesystem: Could not remove file: ".toList ++
        (EntityPayload.mk path name.name).makeName id.name)), data) := by
  have tested := @exists_stored _ _ path holds name id
  rw [absent] at tested
  rw [remove, bind_ok tested]
  rfl

end Operations

theorem write_refused (data : MockData) (path contents : Bytes) {name id : FileName}
    (invalid : ¬ ValidId id.name) :
    (write ⟨path, name.name⟩ id.name contents).run.run data =
      (.error (invalidId id.name), data) := by
  rw [write, check_id_invalid invalid]
  rfl

theorem mock_performs (holds : MockHolds data store) (path : Bytes) (operation : Operation) :
    ∃ (outcome : Except Thrown Outcome) (next : MockData) (after : Store),
      (operation.onMock path).run.run data = (outcome, next) ∧
        Performs store operation outcome after ∧ MockHolds next after := by
  cases operation with
  | existsAt name id => exact ⟨_, _, _, map_ok _ (exists_stored holds), .found name id, holds⟩
  | read name id =>
      cases stored : store (name, id) with
      | none => exact ⟨_, _, _, map_error _ (read_absent holds stored), .notRead stored _, holds⟩
      | some contents =>
          exact ⟨_, _, _, map_ok _ (read_stored holds stored), .read stored, holds⟩
  | write name id contents =>
      by_cases valid : ValidId id.name
      · obtain ⟨next, written, stillHolds⟩ := write_valid holds contents valid
        exact ⟨_, _, _, bind_ok written, .written name contents valid, stillHolds⟩
      · exact ⟨_, _, _, bind_error (write_refused data path contents valid),
          .notWritten name contents valid _, holds⟩
  | remove name id =>
      cases stored : store (name, id) with
      | none =>
          exact ⟨_, _, _, bind_error (remove_absent holds stored), .notRemoved stored _, holds⟩
      | some contents =>
          obtain ⟨next, removed, stillHolds⟩ := remove_stored holds stored
          exact ⟨_, _, _, bind_ok removed, .removed stored, stillHolds⟩
  | listIds name =>
      obtain ⟨ids, lists, same⟩ := lists_stored holds name
      have ran := run_list data ⟨path, name.name⟩
      rw [same] at ran
      exact ⟨_, _, _, map_ok _ ran, .listed lists, holds⟩
  | nextId name =>
      obtain ⟨ids, lists, same⟩ := lists_stored holds name
      have ran := run_list data ⟨path, name.name⟩
      rw [same] at ran
      exact ⟨_, _, _, map_ok _ (bind_ok ran), .numbered lists, holds⟩

end MockFilesystem

/-! ## The two side by side -/

theorem calls_agree {path : Bytes} {disk : Disk} {data : MockData} {store : Store}
    (represents : Represents path disk.tree store) (holds : MockHolds data store)
    {operations : List Operation} (noNull : ∀ operation ∈ operations, operation.NoNull) :
    List.Forall₂ Agree (diskCalls path operations disk) (mockCalls path operations data) := by
  induction operations generalizing disk data store with
  | nil => exact List.Forall₂.nil
  | cons operation later ih =>
      obtain ⟨first, rest⟩ := List.forall_mem_cons.mp noNull
      obtain ⟨outcome, next, after, ran, performs, stillRepresents⟩ :=
        disk_performs represents first
      obtain ⟨result, nextData, other, mockRan, mockPerforms, stillHolds⟩ :=
        MockFilesystem.mock_performs holds path operation
      obtain ⟨agree, same⟩ := performs_agree performs mockPerforms
      subst same
      change Program.exec Disk.perform (operation.onDisk path).run disk = _ at ran
      have onDisk : diskCalls path (operation :: later) disk =
          outcome :: diskCalls path later next := by
        simp only [diskCalls, List.map_cons, Program.inTurn, ran]
      have onMock : mockCalls path (operation :: later) data =
          result :: mockCalls path later nextData := by
        simp only [mockCalls, mockRan]
      rw [onDisk, onMock]
      exact List.Forall₂.cons agree (ih stillRepresents stillHolds rest)

/-- From an empty directory and an empty mock, every call of a sequence is
answered, and alike by both file systems. -/
theorem mock_agrees (path : Bytes) (disk : Disk) (pathNoNull : '\x00' ∉ path)
    (emptyBase : EmptyBase path disk.tree) (operations : List Operation)
    (noNull : ∀ operation ∈ operations, operation.NoNull) :
    (diskCalls path operations disk).length = operations.length ∧
      List.Forall₂ Agree (diskCalls path operations disk)
        (mockCalls path operations OrderedMap.empty) := by
  constructor
  · rw [diskCalls, Program.in_turn_length, List.length_map]
  · exact calls_agree (empty_represents pathNoNull emptyBase) MockFilesystem.empty_holds noNull

def mockOperations : List Operation :=
  [.write itemName itemName "a".toList, .write itemName oneName "b".toList,
    .read itemName oneName, .listIds itemName, .nextId itemName, .remove itemName oneName,
    .remove itemName oneName, .existsAt itemName oneName]

theorem mock_agrees_items :
    List.Forall₂ Agree
      [.error (invalidId "x".toList), .ok .done, .ok (.contents "b".toList),
        .ok (.listed ["1".toList]), .ok (.number "2".toList), .ok .done,
        .error (.notFound "Could not remove file: /data/x/1".toList), .ok (.found false)]
      (mockCalls "/data".toList mockOperations OrderedMap.empty) := by
  have called : diskCalls "/data".toList mockOperations (emptyDisk "data".toList) =
      [.error (invalidId "x".toList), .ok .done, .ok (.contents "b".toList),
        .ok (.listed ["1".toList]), .ok (.number "2".toList), .ok .done,
        .error (.notFound "Could not remove file: /data/x/1".toList), .ok (.found false)] := by
    rfl
  obtain ⟨_, agrees⟩ := mock_agrees "/data".toList (emptyDisk "data".toList) (by decide)
    empty_disk_base mockOperations (by decide)
  rw [called] at agrees
  exact agrees

/-- A null byte in an id hides what is behind it from the system, not from the mock. -/
theorem null_byte_in_mock :
    ¬ ∀ (path : Bytes) (disk : Disk), '\x00' ∉ path → EmptyBase path disk.tree →
      ∀ operations : List Operation,
        List.Forall₂ Agree (diskCalls path operations disk)
          (mockCalls path operations OrderedMap.empty) := by
  intro always
  have agrees := always "/data".toList (emptyDisk "data".toList) (by decide) empty_disk_base
    [.write itemName nullName "a".toList, .existsAt itemName oneName]
  have onDisk : diskCalls "/data".toList
      [.write itemName nullName "a".toList, .existsAt itemName oneName]
      (emptyDisk "data".toList) = [.ok .done, .ok (.found true)] := by rfl
  have inMock : mockCalls "/data".toList
      [.write itemName nullName "a".toList, .existsAt itemName oneName] OrderedMap.empty =
        [.ok .done, .ok (.found false)] := by rfl
  rw [onDisk, inMock] at agrees
  cases agrees with
  | cons first rest =>
      cases rest with
      | cons second rest => cases second

end RestfulWebserver.Entity
