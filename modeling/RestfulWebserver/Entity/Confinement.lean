import RestfulWebserver.Entity.EntityHandler

/-!
# Which files an entity request can reach

Nothing checks the entity name, and an id is checked by `write` only, for a
positive number at its front. What `..` in the two can reach is decided here for
every method.
-/

namespace RestfulWebserver.Entity

open RestfulWebserver.Library RestfulWebserver.Http Program

def Confined (base : Bytes) (call : FileCall) : Prop :=
  Within (locate base) (locate call.path)

def ValidId (id : Bytes) : Prop := ∃ value, stoi id = .ok value ∧ 0 < value

/-! `check_id` is inherited by both file systems. What it comes to does not depend
on what they throw in. -/

theorem checked_valid {id : Bytes} (valid : ValidId id) {Result : Type} (refuse accept : Result) :
    (match stoi id with
      | .error _ => refuse
      | .ok numericId => if numericId ≤ 0 then refuse else accept) = accept := by
  rcases valid with ⟨value, read, positive⟩
  simp only [read]
  rw [if_neg (by omega)]

theorem checked_invalid {id : Bytes} (invalid : ¬ ValidId id) {Result : Type}
    (refuse accept : Result) :
    (match stoi id with
      | .error _ => refuse
      | .ok numericId => if numericId ≤ 0 then refuse else accept) = refuse := by
  cases read : stoi id with
  | error error => rfl
  | ok value =>
      have notPositive : value ≤ 0 := by
        by_contra positive
        exact invalid ⟨value, read, by omega⟩
      exact if_pos notPositive

/-- Behind `base`, `text` does not make the path absolute, and where its `..`
climb above `base`, the names that follow come back down to it. -/
def StaysInside (base text : Bytes) : Prop :=
  (base = [] → isAbsolute text = false) ∧ ComesBack (locate base) (components text)

/-- What a request must keep to, by its method, with its name and its id. -/
def NamesStayInside (base : Bytes) (request : HttpRequest) : Prop :=
  let name := (entityParts request.path).1
  let id := (entityParts request.path).2
  if request.method = "POST".toList then StaysInside base name
  else if request.method = "GET".toList then
    if id = [] then StaysInside base name else StaysInside base (join name id)
  else if request.method = "PUT".toList then
    ValidId id → StaysInside base name ∧ StaysInside base (join name id)
  else if request.method = "DELETE".toList then id ≠ [] → StaysInside base (join name id)
  else True

section Calls

variable {allowed : FileCall → Prop} {Result Other : Type}

theorem all_calls_then {program : FileM Result} {onward : Result → FileM Other}
    (first : AllCalls allowed program.run) (later : ∀ result, AllCalls allowed (onward result).run) :
    AllCalls allowed (program >>= onward).run := by
  rw [ExceptT.run_bind]
  apply all_calls_bind first
  intro outcome
  cases outcome with
  | error thrown => trivial
  | ok result => exact later result

theorem all_calls_first {program : FileM Result} {onward : Result → FileM Other}
    (both : AllCalls allowed (program >>= onward).run) : AllCalls allowed program.run := by
  rw [ExceptT.run_bind] at both
  exact all_calls_of_bind both

/-- After a call that can return every result, all of them must be allowed for. -/
theorem all_calls_tried_iff (call : FileCall) (outcome : call.Answer → Except Bytes Result)
    (returns : ∀ result, ∃ answer, outcome answer = .ok result) (onward : Result → FileM Other) :
    AllCalls allowed (tried call outcome >>= onward).run ↔
      allowed call ∧ ∀ result, AllCalls allowed (onward result).run := by
  constructor
  · rintro ⟨first, later⟩
    refine ⟨first, ?_⟩
    intro result
    rcases returns result with ⟨answer, returned⟩
    have reached := later answer
    simp only [returned, Except.mapError] at reached
    exact reached
  · rintro ⟨first, later⟩
    refine ⟨first, ?_⟩
    intro answer
    change AllCalls allowed
      ((Program.done ((outcome answer).mapError .other)).bind (ExceptT.bindCont onward))
    cases outcome answer with
    | error what => exact trivial
    | ok result => exact later result

theorem all_calls_create_iff (path : Bytes) (onward : Unit → FileM Other) :
    AllCalls allowed (createDirectories path >>= onward).run ↔
      allowed (.createDirectories path) ∧ ∀ created, AllCalls allowed (onward created).run :=
  all_calls_tried_iff (.createDirectories path) id (fun created => ⟨.ok created, rfl⟩) onward

theorem all_calls_exists_iff (path : Bytes) (onward : Bool → FileM Other) :
    AllCalls allowed (pathExists path >>= onward).run ↔
      allowed (.pathExists path) ∧ ∀ found, AllCalls allowed (onward found).run :=
  all_calls_tried_iff (.pathExists path) id (fun found => ⟨.ok found, rfl⟩) onward

theorem all_calls_remove_iff (path : Bytes) (onward : Bool → FileM Other) :
    AllCalls allowed (removePath path >>= onward).run ↔
      allowed (.remove path) ∧ ∀ removed, AllCalls allowed (onward removed).run :=
  all_calls_tried_iff (.remove path) id (fun removed => ⟨.ok removed, rfl⟩) onward

theorem all_calls_entries_iff (path : Bytes) (onward : List FileName → FileM Other) :
    AllCalls allowed (directoryEntries path >>= onward).run ↔
      allowed (.directoryEntries path) ∧ ∀ entries, AllCalls allowed (onward entries).run :=
  all_calls_tried_iff (.directoryEntries path) id (fun entries => ⟨.ok entries, rfl⟩) onward

theorem all_calls_regular_iff (directory : Bytes) (entry : FileName) (onward : Bool → FileM Other) :
    AllCalls allowed (isRegularFile directory entry >>= onward).run ↔
      allowed (.isRegularFile directory entry) ∧
        ∀ regular, AllCalls allowed (onward regular).run :=
  all_calls_tried_iff (.isRegularFile directory entry) id (fun regular => ⟨.ok regular, rfl⟩) onward

theorem check_id_of_valid {id : Bytes} (valid : ValidId id) : checkId id = pure () :=
  checked_valid valid _ _

theorem check_id_of_invalid {id : Bytes} (invalid : ¬ ValidId id) :
    checkId id = throw (invalidId id) :=
  checked_invalid invalid _ _

end Calls

/-! ## One operation at a time -/

section Operations

variable {allowed : FileCall → Prop} {base : Bytes} {entity : EntityPayload}

theorem read_calls_iff (id : Bytes) :
    AllCalls allowed (RealFilesystem.read entity id).run ↔
      allowed (.pathExists (entity.makePathTo id)) ∧ allowed (.readFile (entity.makePathTo id)) := by
  rw [RealFilesystem.read, all_calls_exists_iff]
  constructor
  · intro both
    have opened := both.2 true
    exact ⟨both.1, opened.1⟩
  · rintro ⟨tested, opened⟩
    refine ⟨tested, ?_⟩
    intro found
    cases found with
    | false => exact trivial
    | true =>
        refine ⟨opened, ?_⟩
        intro contents
        cases contents <;> trivial

theorem remove_calls_iff (id : Bytes) :
    AllCalls allowed (RealFilesystem.remove entity id).run ↔
      allowed (.remove (entity.makePathTo id)) := by
  rw [RealFilesystem.remove, all_calls_remove_iff]
  constructor
  · intro both
    exact both.1
  · intro removing
    refine ⟨removing, ?_⟩
    intro removed
    cases removed <;> trivial

theorem write_calls_iff (id data : Bytes) :
    AllCalls allowed (RealFilesystem.write entity id data).run ↔
      (ValidId id → allowed (.createDirectories entity.makePath) ∧
        allowed (.writeFile (entity.makePathTo id) data)) := by
  unfold RealFilesystem.write
  by_cases valid : ValidId id
  · rw [check_id_of_valid valid, pure_bind, all_calls_create_iff]
    constructor
    · intro both _
      exact ⟨both.1, (both.2 ()).1⟩
    · intro both
      rcases both valid with ⟨directory, file⟩
      refine ⟨directory, fun created => ⟨file, ?_⟩⟩
      intro isOpen
      cases isOpen <;> trivial
  · rw [check_id_of_invalid valid]
    constructor
    · intro calls isValid
      exact absurd isValid valid
    · intro both
      exact trivial

theorem regular_files_calls {directory : Bytes} (entries : List FileName)
    (tested : ∀ entry : FileName, allowed (.isRegularFile directory entry)) :
    AllCalls allowed (RealFilesystem.regularFiles directory entries).run := by
  induction entries with
  | nil => trivial
  | cons entry later ih =>
      rw [RealFilesystem.regularFiles, all_calls_regular_iff]
      refine ⟨tested entry, ?_⟩
      intro regular
      exact all_calls_then ih fun ids => trivial

theorem list_ids_calls (searched : allowed (.pathExists entity.makePath))
    (listed : allowed (.directoryEntries entity.makePath))
    (tested : ∀ entry : FileName, allowed (.isRegularFile entity.makePath entry)) :
    AllCalls allowed (RealFilesystem.listIds entity).run := by
  rw [RealFilesystem.listIds, all_calls_exists_iff]
  refine ⟨searched, ?_⟩
  intro found
  cases found with
  | false => trivial
  | true =>
      simp only [Bool.not_true, Bool.false_eq_true, if_false]
      rw [all_calls_entries_iff]
      exact ⟨listed, fun entries => regular_files_calls entries tested⟩

/-- `POST` asks for a number and writes under it. -/
theorem post_calls {data : Bytes} (listing : AllCalls allowed (RealFilesystem.listIds entity).run)
    (writing : ∀ value, AllCalls allowed
      (RealFilesystem.write entity (RealFilesystem.intToString value) data).run) :
    AllCalls allowed (do
        let newId ← RealFilesystem.nextId entity
        RealFilesystem.write entity newId data
        pure (idResponse newId) : FileM HttpResponse).run := by
  simp only [RealFilesystem.nextId, bind_assoc, pure_bind]
  apply all_calls_then listing
  intro ids
  exact all_calls_then (writing _) fun written => trivial

theorem read_confined_iff (id : Bytes) :
    AllCalls (Confined base) (RealFilesystem.read entity id).run ↔
      Within (locate base) (locate (entity.makePathTo id)) :=
  (read_calls_iff id).trans and_self_iff

theorem remove_confined_iff (id : Bytes) :
    AllCalls (Confined base) (RealFilesystem.remove entity id).run ↔
      Within (locate base) (locate (entity.makePathTo id)) := remove_calls_iff id

theorem write_confined_iff (id data : Bytes) :
    AllCalls (Confined base) (RealFilesystem.write entity id data).run ↔
      (ValidId id → Within (locate base) (locate entity.makePath) ∧
        Within (locate base) (locate (entity.makePathTo id))) := write_calls_iff id data

theorem within_child {directory child : Bytes} (within : Within (locate base) (locate directory))
    (nonempty : child ≠ []) (noSlash : '/' ∉ child) (notDot : child ≠ ".".toList)
    (notDotDot : child ≠ dotDot) : Within (locate base) (locate (join directory child)) := by
  have single : components child = [child] := components_single nonempty noSlash notDot
  have relative : isAbsolute child = false := by
    cases head : child.head? with
    | none => simp [isAbsolute, head]
    | some first =>
        have differs : first ≠ '/' := by
          rintro rfl
          exact noSlash (List.mem_of_mem_head? head)
        simp [isAbsolute, head, differs]
  have sameStart : isAbsolute (join directory child) = isAbsolute directory := by
    rw [is_absolute_join]
    split_ifs with empty
    · rw [empty, relative]
      rfl
    · rfl
  have onward : locate (join directory child) = (locate directory).enter child := by
    rw [locate, sameStart, components_join, single, walk_snoc]
    rfl
  rcases enter_name (locate directory) notDotDot with ⟨climbs, names⟩
  rcases (within_iff _ _).mp within with ⟨sameRoot, sameClimbs, below⟩
  rw [onward, within_iff, enter_absolute, climbs, names]
  exact ⟨sameRoot, sameClimbs, below.trans (List.prefix_append _ _)⟩

theorem list_ids_confined_iff :
    AllCalls (Confined base) (RealFilesystem.listIds entity).run ↔
      Within (locate base) (locate entity.makePath) := by
  constructor
  · intro calls
    rw [RealFilesystem.listIds, all_calls_exists_iff] at calls
    exact calls.1
  · intro within
    apply list_ids_calls within within
    intro entry
    exact within_child within entry.nonempty entry.noSlash entry.notDot entry.notDotDot

theorem int_to_string_plain (value : Int) (byte : Char)
    (member : byte ∈ RealFilesystem.intToString value) : byte.isDigit = true ∨ byte = '-' := by
  have digits : ∀ other ∈ toDecimal value.natAbs, other.isDigit = true := by
    intro other inDigits
    exact Nat.isDigit_of_mem_toDigits (by decide) (by decide) inDigits
  unfold RealFilesystem.intToString at member
  split at member
  · rcases List.mem_cons.mp member with sign | inDigits
    · exact Or.inr sign
    · exact Or.inl (digits byte inDigits)
  · exact Or.inl (digits byte member)

theorem int_to_string_nonempty (value : Int) : RealFilesystem.intToString value ≠ [] := by
  have digits : toDecimal value.natAbs ≠ [] := by
    rw [toDecimal, Nat.toDigits_eq_if (by decide)]
    split <;> simp
  unfold RealFilesystem.intToString
  split
  · exact List.cons_ne_nil _ _
  · exact digits

def numberName (value : Int) : FileName where
  name := RealFilesystem.intToString value
  nonempty := int_to_string_nonempty value
  noSlash := by
    intro member
    rcases int_to_string_plain value '/' member with digit | sign
    · cases digit
    · cases sign
  notDot := by
    intro same
    have member : '.' ∈ RealFilesystem.intToString value := by simp [same]
    rcases int_to_string_plain value '.' member with digit | sign
    · cases digit
    · cases sign
  notDotDot := by
    intro same
    have member : '.' ∈ RealFilesystem.intToString value := by simp [same, dotDot]
    rcases int_to_string_plain value '.' member with digit | sign
    · cases digit
    · cases sign

theorem number_no_null (value : Int) : '\x00' ∉ (numberName value).name := by
  intro member
  rcases int_to_string_plain value _ member with digit | sign
  · cases digit
  · cases sign

theorem within_new_id {directory : Bytes} (within : Within (locate base) (locate directory))
    (value : Int) :
    Within (locate base) (locate (join directory (RealFilesystem.intToString value))) :=
  within_child within (numberName value).nonempty (numberName value).noSlash
    (numberName value).notDot (numberName value).notDotDot

theorem post_confined_iff (data : Bytes) :
    AllCalls (Confined base) (do
        let newId ← RealFilesystem.nextId entity
        RealFilesystem.write entity newId data
        pure (idResponse newId) : FileM HttpResponse).run ↔
      Within (locate base) (locate entity.makePath) := by
  constructor
  · intro calls
    have listed := all_calls_first (all_calls_first calls)
    exact list_ids_confined_iff.mp listed
  · intro within
    apply post_calls (list_ids_confined_iff.mpr within)
    intro value
    rw [write_confined_iff]
    intro _
    exact ⟨within, within_new_id within value⟩

end Operations

/-! ## The handler -/

theorem within_entity_iff (base name : Bytes) :
    Within (locate base) (locate (EntityPayload.mk base name).makePath) ↔
      StaysInside base name := within_join_iff base name

theorem within_id_iff (base name id : Bytes) :
    Within (locate base) (locate ((EntityPayload.mk base name).makePathTo id)) ↔
      StaysInside base (join name id) := by
  rw [EntityPayload.makePathTo, join_assoc]
  exact within_join_iff base (join name id)

theorem all_calls_done_iff {allowed : FileCall → Prop} {Result Other : Type}
    (program : FileM Result) (onward : Result → Other) :
    AllCalls allowed (program >>= fun result => pure (onward result)).run ↔
      AllCalls allowed program.run := by
  constructor
  · exact all_calls_first
  · intro calls
    exact all_calls_then calls fun result => trivial

theorem invalid_empty_id : ¬ ValidId [] := by
  rintro ⟨value, read, _⟩
  cases read

theorem serve_confined_iff (base : Bytes) (request : HttpRequest) :
    AllCalls (Confined base) (EntityHandler.serve base request).run ↔
      NamesStayInside base request := by
  unfold EntityHandler.serve NamesStayInside
  rcases entityParts request.path with ⟨name, id⟩
  simp only
  split_ifs with post get noId put noId delete noId
  · rw [post_confined_iff, within_entity_iff]
  · rw [all_calls_done_iff, list_ids_confined_iff, within_entity_iff]
  · rw [all_calls_done_iff, read_confined_iff, within_id_iff]
  · rw [noId]
    exact ⟨fun _ valid => absurd valid invalid_empty_id, fun _ => trivial⟩
  · rw [all_calls_done_iff, write_confined_iff, within_entity_iff, within_id_iff]
  · exact ⟨fun _ someId => absurd noId someId, fun _ => trivial⟩
  · rw [all_calls_done_iff, remove_confined_iff, within_id_iff]
    exact ⟨fun within _ => within, fun within => within noId⟩
  · exact ⟨fun _ => trivial, fun _ => trivial⟩

theorem within_self (base : Location) : Within base base :=
  ⟨rfl, [], (List.append_nil _).symm, List.not_mem_nil⟩

theorem locked_calls_iff {allowed : FileCall → Prop} (base : Bytes) (request : HttpRequest) :
    AllCalls allowed (EntityHandler.locked base request) ↔
      AllCalls allowed (EntityHandler.serve base request).run := by
  constructor
  · exact all_calls_of_bind
  · intro calls
    apply all_calls_bind calls
    intro outcome
    cases outcome <;> trivial

/-- Every file call of an entity request stays within the root exactly when the
entity name and the id, as far as the method uses them, come back to it. -/
theorem storage_confined_iff (base : Bytes) (request : HttpRequest) :
    AllCalls (Confined base) (EntityHandler.handleRequest base request).run ↔
      NamesStayInside base request := by
  rw [EntityHandler.handleRequest, RealFilesystem.create, all_calls_create_iff,
    ← serve_confined_iff, ← locked_calls_iff]
  constructor
  · intro calls
    exact all_calls_of_bind (calls.2 ())
  · intro calls
    refine ⟨within_self _, ?_⟩
    intro created
    exact all_calls_bind calls fun response => trivial

def traversal : HttpRequest where
  method := "GET".toList
  path := "/api/../secret".toList
  version := "HTTP/1.1".toList
  headers := OrderedMap.empty
  body := []

/-- The entity name `..` leads out of the root. -/
theorem request_leaves_root :
    ¬ ∀ (base : Bytes) (request : HttpRequest),
      (∀ byte ∈ request.path, isSpace byte = false) →
      AllCalls (Confined base) (EntityHandler.handleRequest base request).run := by
  intro confined
  have calls := confined "/data".toList traversal (forall_of_all (by decide))
  rw [EntityHandler.handleRequest, RealFilesystem.create, all_calls_create_iff] at calls
  have served := (locked_calls_iff _ _).mp (all_calls_of_bind (calls.2 ()))
  have tested : Confined "/data".toList (.pathExists "/data/../secret".toList) := served.1
  have names := ((within_iff _ _).mp tested).2.2
  revert names
  decide +kernel

end RestfulWebserver.Entity
