import Mathlib.Data.List.Nodup
import RestfulWebserver.Entity.Disk
import RestfulWebserver.Library.Numeral

/-!
# The keyed store behind the files

What the files are for: bytes under a name and an id.
-/

namespace RestfulWebserver.Entity

open RestfulWebserver.Library RestfulWebserver.Http

abbrev Store := FileName × FileName → Option Bytes

namespace Store

def empty : Store := fun _ => none

def set (store : Store) (name id : FileName) (contents : Option Bytes) : Store :=
  Function.update store (name, id) contents

theorem set_here (store : Store) (name id : FileName) (contents : Option Bytes) :
    store.set name id contents (name, id) = contents := Function.update_self ..

theorem set_other (store : Store) {name id : FileName} (contents : Option Bytes)
    {key : FileName × FileName} (other : key ≠ (name, id)) :
    store.set name id contents key = store key := Function.update_of_ne other ..

structure Lists (store : Store) (name : FileName) (ids : List FileName) : Prop where
  distinct : ids.Nodup
  complete : ∀ id, id ∈ ids ↔ (store (name, id)).isSome = true

theorem lists_perm {store : Store} {name : FileName} {ids others : List FileName}
    (lists : store.Lists name ids) (same : store.Lists name others) :
    (ids.map FileName.name).Perm (others.map FileName.name) := by
  apply List.Perm.map
  rw [List.perm_ext_iff_of_nodup lists.distinct same.distinct]
  intro id
  rw [lists.complete, same.complete]

/-! ## The number of a new id -/

theorem max_id_no_number (ids : List Bytes) {last : Bytes} {error : NumberError}
    (read : stoi last = .error error) :
    RealFilesystem.maxId (ids ++ [last]) = RealFilesystem.maxId ids := by
  rw [RealFilesystem.maxId, List.foldl_append, List.foldl_cons, List.foldl_nil, read]
  rfl

theorem max_id_number (ids : List Bytes) {last : Bytes} {number : Int}
    (read : stoi last = .ok number) :
    RealFilesystem.maxId (ids ++ [last]) =
      if RealFilesystem.maxId ids < number then number else RealFilesystem.maxId ids := by
  rw [RealFilesystem.maxId, List.foldl_append, List.foldl_cons, List.foldl_nil, read]
  rfl

theorem max_id_spec (ids : List Bytes) :
    0 ≤ RealFilesystem.maxId ids ∧
      (∀ id ∈ ids, ∀ value, stoi id = .ok value → value ≤ RealFilesystem.maxId ids) ∧
      (RealFilesystem.maxId ids = 0 ∨
        ∃ id ∈ ids, stoi id = .ok (RealFilesystem.maxId ids)) := by
  induction ids using List.reverseRecOn with
  | nil => exact ⟨Int.le_refl 0, by simp, Or.inl rfl⟩
  | append_singleton ids last ih =>
      obtain ⟨positive, bounds, attained⟩ := ih
      have before : RealFilesystem.maxId ids = 0 ∨
          ∃ id ∈ ids ++ [last], stoi id = .ok (RealFilesystem.maxId ids) := by
        rcases attained with zero | ⟨id, member, isMax⟩
        · exact Or.inl zero
        · exact Or.inr ⟨id, List.mem_append_left _ member, isMax⟩
      cases read : stoi last with
      | error error =>
          rw [max_id_no_number ids read]
          refine ⟨positive, ?_, before⟩
          intro id member value isValue
          rcases List.mem_append.mp member with earlier | new
          · exact bounds id earlier value isValue
          · rw [List.mem_singleton.mp new, read] at isValue
            cases isValue
      | ok number =>
          rw [max_id_number ids read]
          refine ⟨by split_ifs <;> omega, ?_, ?_⟩
          · intro id member value isValue
            rcases List.mem_append.mp member with earlier | new
            · have bound := bounds id earlier value isValue
              split_ifs <;> omega
            · rw [List.mem_singleton.mp new, read] at isValue
              cases isValue
              split_ifs <;> omega
          · split_ifs with larger
            · exact Or.inr ⟨last, by simp, read⟩
            · exact before

/-- The largest id does not depend on the order of the listing. -/
theorem max_id_perm {ids others : List Bytes} (perm : ids.Perm others) :
    RealFilesystem.maxId ids = RealFilesystem.maxId others := by
  have below : ∀ first second : List Bytes, first.Perm second →
      RealFilesystem.maxId first ≤ RealFilesystem.maxId second := by
    intro first second perm
    obtain ⟨positive, bounds, _⟩ := max_id_spec second
    rcases (max_id_spec first).2.2 with zero | ⟨id, member, isMax⟩
    · rw [zero]
      exact positive
    · exact bounds id (perm.mem_iff.mp member) _ isMax
  exact Int.le_antisymm (below ids others perm) (below others ids perm.symm)

theorem stoi_int_to_string {value : Int} (positive : 0 ≤ value) (bounded : value ≤ intMax) :
    stoi (RealFilesystem.intToString value) = .ok value := by
  have digits : decimal (toDecimal value.natAbs) = value.natAbs := Nat.ofDigitChars_ten_toDigits
  have whole : (value.natAbs : Int) = value := by omega
  rw [RealFilesystem.intToString, if_neg (by omega), stoi_of_digits, digits, whole]
  · exact Nat.toDigits_ne_nil
  · intro byte member
    exact Nat.isDigit_of_mem_toDigits (by decide) (by decide) member
  · rw [digits, whole]
    exact bounded

/-- Below the largest `int` the new id is the next number. -/
theorem next_number {ids : List Bytes} (noLargest : ∀ id ∈ ids, stoi id ≠ .ok intMax) :
    stoi (RealFilesystem.intToString ((RealFilesystem.maxId ids + 1).bmod (2 ^ 32))) =
      .ok (RealFilesystem.maxId ids + 1) := by
  obtain ⟨positive, _, attained⟩ := max_id_spec ids
  have below : RealFilesystem.maxId ids < intMax := by
    rcases attained with zero | ⟨id, member, isMax⟩
    · rw [zero]
      decide
    · have bound := stoi_bounded isMax
      have other : RealFilesystem.maxId ids ≠ intMax := fun same => noLargest id member (same ▸ isMax)
      omega
  have small : (RealFilesystem.maxId ids + 1).bmod (2 ^ 32) = RealFilesystem.maxId ids + 1 := by
    unfold intMax at below
    apply Int.bmod_eq_of_le <;> omega
  rw [small]
  exact stoi_int_to_string (by omega) (by omega)

/-- Behind the largest `int` comes the smallest one. -/
theorem next_number_wraps {ids : List Bytes} {id : Bytes} (member : id ∈ ids)
    (largest : stoi id = .ok intMax) :
    stoi (RealFilesystem.intToString ((RealFilesystem.maxId ids + 1).bmod (2 ^ 32))) =
      .ok intMin := by
  obtain ⟨_, bounds, attained⟩ := max_id_spec ids
  have reached : RealFilesystem.maxId ids = intMax := by
    apply Int.le_antisymm
    · rcases attained with zero | ⟨other, _, isMax⟩
      · rw [zero]
        decide
      · exact stoi_bounded isMax
    · exact bounds id member _ largest
  rw [reached]
  decide +kernel

theorem next_number_absent {ids : List Bytes} (noLargest : ∀ id ∈ ids, stoi id ≠ .ok intMax) :
    RealFilesystem.intToString ((RealFilesystem.maxId ids + 1).bmod (2 ^ 32)) ∉ ids := by
  intro member
  have bound := (max_id_spec ids).2.1 _ member _ (next_number noLargest)
  omega

end Store

/-! ## The files of a store -/

/-- The files below a directory are those of the store. -/
structure Represents (baseDir : Bytes) (tree : Tree) (store : Store) : Prop where
  wellFormed : tree.WellFormed
  noNull : '\x00' ∉ baseDir
  root : tree.stat baseDir = .ok none
  files : ∀ below contents, tree.lookup (Tree.placeAt baseDir ++ below) = some (some contents) ↔
    ∃ name id : FileName, below = [name.name, id.name] ∧ store (name, id) = some contents
  free : ∀ name id : FileName,
    tree.lookup (Tree.placeAt baseDir ++ [name.name, id.name]) ≠ some none

structure EmptyBase (baseDir : Bytes) (tree : Tree) : Prop where
  wellFormed : tree.WellFormed
  root : tree.stat baseDir = .ok none
  nothing : ∀ name, tree.lookup (Tree.placeAt baseDir ++ [name]) = none

theorem empty_below {baseDir : Bytes} {tree : Tree} (emptyBase : EmptyBase baseDir tree)
    (name : Bytes) (rest : List Bytes) :
    tree.lookup (Tree.placeAt baseDir ++ name :: rest) = none := by
  induction rest using List.reverseRecOn with
  | nil => exact emptyBase.nothing name
  | append_singleton rest last ih =>
      cases found : tree.lookup (Tree.placeAt baseDir ++ name :: (rest ++ [last])) with
      | none => rfl
      | some node =>
          have inside : Tree.placeAt baseDir ++ name :: (rest ++ [last]) =
              (Tree.placeAt baseDir ++ name :: rest) ++ [last] := by simp
          rw [inside] at found
          rw [emptyBase.wellFormed.parents _ _ _ found] at ih
          cases ih

theorem empty_no_file {baseDir : Bytes} {tree : Tree} (emptyBase : EmptyBase baseDir tree)
    (below : List Bytes) (contents : Bytes) :
    tree.lookup (Tree.placeAt baseDir ++ below) ≠ some (some contents) := by
  cases below with
  | nil =>
      rw [List.append_nil, ((Tree.stat_ok_iff none).mp emptyBase.root).2]
      simp
  | cons name rest =>
      rw [empty_below emptyBase]
      simp

theorem empty_represents {baseDir : Bytes} {tree : Tree} (noNull : '\x00' ∉ baseDir)
    (emptyBase : EmptyBase baseDir tree) : Represents baseDir tree Store.empty := by
  refine ⟨emptyBase.wellFormed, noNull, emptyBase.root, fun below contents => ?_, fun name id => ?_⟩
  · constructor
    · intro found
      exact absurd found (empty_no_file emptyBase below contents)
    · intro ⟨name, id, _, stored⟩
      cases stored
  · rw [empty_below emptyBase]
    simp

def emptyDisk (directory : Bytes) : Disk where
  tree := [([directory], none)]
  orders := fun _ => ⟨id, fun _ => List.Perm.refl _⟩

theorem empty_disk_lookup (directory : Bytes) (place : List Bytes) :
    (emptyDisk directory).tree.lookup place =
      if place = [] ∨ place = [directory] then some none else none := by
  by_cases root : place = []
  · simp [Tree.lookup, root]
  · by_cases here : place = [directory]
    · simp [Tree.lookup, here, emptyDisk]
    · simp [Tree.lookup, root, here, emptyDisk, Ne.symm here]

theorem empty_disk_base : EmptyBase "/data".toList (emptyDisk "data".toList).tree := by
  have lookups := empty_disk_lookup "data".toList
  refine ⟨⟨by simp [emptyDisk], ?_⟩, by decide +kernel, fun name => ?_⟩
  · intro place name node found
    rw [lookups] at found ⊢
    split_ifs at found with inside
    rcases inside with empty | inDirectory
    · simp at empty
    · cases place with
      | nil => rfl
      | cons first rest => simp at inDirectory
  · have place : Tree.placeAt "/data".toList = ["data".toList] := by decide +kernel
    rw [place, lookups, if_neg (by simp)]

def itemName : FileName := ⟨"x".toList, by decide, by decide, by decide, by decide⟩

def oneName : FileName := ⟨"1".toList, by decide, by decide, by decide, by decide⟩

def nullName : FileName := ⟨"1\x00a".toList, by decide, by decide, by decide, by decide⟩

theorem entry_inj {name id otherName otherId : FileName}
    (same : [name.name, id.name] = [otherName.name, otherId.name]) :
    name = otherName ∧ id = otherId := by
  simp only [List.cons.injEq, and_true] at same
  exact ⟨file_name_inj same.1, file_name_inj same.2⟩

namespace Represents

variable {baseDir : Bytes} {tree : Tree} {store : Store}

theorem lookup_file (represents : Represents baseDir tree store) (name id : FileName) :
    tree.lookup (Tree.placeAt baseDir ++ [name.name, id.name]) = (store (name, id)).map some := by
  cases stored : store (name, id) with
  | some contents => exact (represents.files _ _).mpr ⟨name, id, rfl, stored⟩
  | none =>
      cases found : tree.lookup (Tree.placeAt baseDir ++ [name.name, id.name]) with
      | none => rfl
      | some node =>
          cases node with
          | none => exact absurd found (represents.free name id)
          | some contents =>
              obtain ⟨otherName, otherId, same, there⟩ := (represents.files _ _).mp found
              obtain ⟨sameName, sameId⟩ := entry_inj same
              rw [sameName, sameId, there] at stored
              cases stored

theorem no_file (represents : Represents baseDir tree store) (name : FileName) (contents : Bytes) :
    tree.lookup (Tree.placeAt baseDir ++ [name.name]) ≠ some (some contents) := by
  intro found
  obtain ⟨_, _, same, _⟩ := (represents.files _ _).mp found
  exact absurd (congrArg List.length same) (by simp)

theorem way_there (represents : Represents baseDir tree store) :
    ∀ station ∈ Tree.way baseDir, tree.lookup station = some none :=
  (Tree.directory_iff.mp represents.root).2

theorem root_kept (represents : Represents baseDir tree store) {next : Tree}
    (kept : ∀ station ∈ Tree.way baseDir, next.lookup station = some none) :
    next.stat baseDir = .ok none :=
  Tree.directory_iff.mpr ⟨(Tree.directory_iff.mp represents.root).1, kept⟩

theorem set_files (represents : Represents baseDir tree store) {name id : FileName}
    {changed : Option Bytes} {next : Tree} (wellFormed : next.WellFormed)
    (kept : ∀ station ∈ Tree.way baseDir, next.lookup station = some none)
    (here : next.lookup (Tree.placeAt baseDir ++ [name.name, id.name]) = changed.map some)
    (elsewhere : ∀ below contents, below ≠ [name.name, id.name] →
      (next.lookup (Tree.placeAt baseDir ++ below) = some (some contents) ↔
        tree.lookup (Tree.placeAt baseDir ++ below) = some (some contents)))
    (free : ∀ otherName otherId : FileName, (otherName, otherId) ≠ (name, id) →
      next.lookup (Tree.placeAt baseDir ++ [otherName.name, otherId.name]) ≠ some none) :
    Represents baseDir next (store.set name id changed) := by
  refine ⟨wellFormed, represents.noNull, represents.root_kept kept, fun below contents => ?_,
    fun otherName otherId => ?_⟩
  · by_cases same : below = [name.name, id.name]
    · subst same
      rw [here]
      constructor
      · intro isContents
        refine ⟨name, id, rfl, ?_⟩
        rw [Store.set_here]
        cases changed with
        | none => cases isContents
        | some data =>
            cases isContents
            rfl
      · intro ⟨otherName, otherId, same, stored⟩
        obtain ⟨sameName, sameId⟩ := entry_inj same
        rw [← sameName, ← sameId, Store.set_here] at stored
        rw [stored]
        rfl
    · rw [elsewhere below contents same, represents.files]
      constructor
      · intro ⟨otherName, otherId, isBelow, stored⟩
        refine ⟨otherName, otherId, isBelow, ?_⟩
        rw [Store.set_other, stored]
        intro key
        cases key
        exact same isBelow
      · intro ⟨otherName, otherId, isBelow, stored⟩
        refine ⟨otherName, otherId, isBelow, ?_⟩
        rwa [Store.set_other] at stored
        intro key
        cases key
        exact same isBelow
  · by_cases same : (otherName, otherId) = (name, id)
    · obtain ⟨rfl, rfl⟩ := Prod.mk.inj same
      rw [here]
      cases changed <;> simp
    · exact free otherName otherId same

end Represents

/-! ## The operations of `RealFilesystem` on a store -/

section Operations

open Disk

variable {baseDir : Bytes} {disk : Disk} {store : Store} {name id : FileName}

theorem make_path_no_null (noNull : '\x00' ∉ baseDir) (nameNoNull : '\x00' ∉ name.name) :
    '\x00' ∉ (EntityPayload.mk baseDir name.name).makePath := join_no_null noNull nameNoNull

theorem place_of_name (noNull : '\x00' ∉ baseDir) (nameNoNull : '\x00' ∉ name.name) :
    placeOf ⟨baseDir, name.name⟩ = Tree.placeAt baseDir ++ [name.name] := by
  have joined := Tree.place_join noNull name.name
  rw [c_string_whole nameNoNull, components_file_name] at joined
  exact joined.trans (enter_file_name _ name)

theorem place_of_id (noNull : '\x00' ∉ baseDir) (nameNoNull : '\x00' ∉ name.name) (id : FileName) :
    placeOf ⟨baseDir, name.name⟩ ++ [id.name] = Tree.placeAt baseDir ++ [name.name, id.name] := by
  rw [place_of_name noNull nameNoNull, List.append_assoc]
  rfl

section Stat

variable (represents : Represents baseDir disk.tree store) (nameNoNull : '\x00' ∉ name.name)

include represents nameNoNull

theorem stat_name : disk.tree.stat (EntityPayload.mk baseDir name.name).makePath =
    match disk.tree.lookup (Tree.placeAt baseDir ++ [name.name]) with
    | none => .error .missing
    | some node => .ok node := by
  have text := Tree.text_of_cut (Tree.directory_iff.mp represents.root).1
  have joined := @Tree.stat_join disk.tree baseDir name.name represents.noNull text name.nonempty
    name.noSlash nameNoNull
  rw [represents.root, enter_file_name] at joined
  exact joined

theorem stat_id (idNoNull : '\x00' ∉ id.name) :
    disk.tree.stat ((EntityPayload.mk baseDir name.name).makePathTo id.name) =
      match store (name, id) with
      | none => .error .missing
      | some contents => .ok (some contents) := by
  have text : (EntityPayload.mk baseDir name.name).makePath ≠ [] := by
    intro empty
    have place := @place_of_name baseDir name represents.noNull nameNoNull
    rw [placeOf, empty] at place
    exact List.append_ne_nil_of_right_ne_nil _ (List.cons_ne_nil _ _) place.symm
  have joined := @Tree.stat_join disk.tree _ id.name
    (make_path_no_null represents.noNull nameNoNull) text id.nonempty id.noSlash idNoNull
  have stored := represents.lookup_file name id
  rw [← place_of_id represents.noNull nameNoNull id] at stored
  rw [stat_name represents nameNoNull, enter_file_name] at joined
  refine joined.trans ?_
  cases found : disk.tree.lookup (Tree.placeAt baseDir ++ [name.name]) with
  | none =>
      have absent : store (name, id) = none := by
        rw [place_of_name represents.noNull nameNoNull] at stored
        cases isStored : store (name, id) with
        | none => rfl
        | some contents =>
            rw [isStored] at stored
            have parent := represents.wellFormed.parents _ _ _ stored
            rw [found] at parent
            cases parent
      rw [absent]
  | some node =>
      cases node with
      | some contents => exact absurd found (represents.no_file name contents)
      | none =>
          change (match disk.tree.lookup (placeOf ⟨baseDir, name.name⟩ ++ [id.name]) with
            | none => _
            | some node => _) = _
          rw [stored]
          cases store (name, id) <;> rfl

/-- On the way to an entity lie the way to the root and its own directory. -/
theorem way_to_name (station : List Bytes) :
    station ∈ Tree.way (EntityPayload.mk baseDir name.name).makePath ↔
      station ∈ Tree.way baseDir ∨ station = Tree.placeAt baseDir ++ [name.name] := by
  have joined := Tree.mem_way_join represents.noNull name.name station
  rw [c_string_whole nameNoNull, components_file_name] at joined
  refine joined.trans ?_
  constructor
  · rintro (above | below)
    · exact Or.inl above
    · rcases List.mem_cons.mp below with here | last
      · rw [here]
        exact Or.inl (Tree.place_mem_way baseDir)
      · right
        rw [List.mem_singleton.mp last, enter_file_name]
  · rintro (above | here)
    · exact Or.inl above
    · right
      rw [here, ← enter_file_name]
      exact Tree.mem_stations_last _ [name.name]

theorem entry_off_way (otherName otherId : FileName) :
    Tree.placeAt baseDir ++ [otherName.name, otherId.name] ∉
      Tree.way (EntityPayload.mk baseDir name.name).makePath := by
  rw [way_to_name represents nameNoNull]
  rintro (above | here)
  · exact represents.free otherName otherId (represents.way_there _ above)
  · have lengths := congrArg List.length here
    simp at lengths

theorem clear_of_store (id : FileName) : Clear ⟨baseDir, name.name⟩ id.name disk.tree := by
  have noNull := represents.noNull
  have place := @place_of_name baseDir name noNull nameNoNull
  constructor
  · intro empty
    rw [placeOf, empty] at place
    exact List.append_ne_nil_of_right_ne_nil _ (List.cons_ne_nil _ _) place.symm
  · exact make_path_no_null noNull nameNoNull
  · intro station member contents
    rcases (way_to_name represents nameNoNull station).mp member with above | here
    · rw [represents.way_there station above]
      simp
    · rw [here]
      exact represents.no_file name contents
  · rw [place_of_id noNull nameNoNull]
    exact entry_off_way represents nameNoNull name id
  · rw [place_of_id noNull nameNoNull]
    exact represents.free name id

theorem exists_in_store (idNoNull : '\x00' ∉ id.name) :
    runOn (RealFilesystem.existsAt ⟨baseDir, name.name⟩ id.name) disk =
      (.ok (store (name, id)).isSome, disk) := by
  rw [RealFilesystem.existsAt, run_exists, stat_id represents nameNoNull idNoNull]
  cases store (name, id) <;> rfl

theorem read_stored (idNoNull : '\x00' ∉ id.name) {contents : Bytes}
    (stored : store (name, id) = some contents) :
    runOn (RealFilesystem.read ⟨baseDir, name.name⟩ id.name) disk = (.ok contents, disk) := by
  apply run_read_found
  rw [stat_id represents nameNoNull idNoNull, stored]

theorem read_absent (idNoNull : '\x00' ∉ id.name) (absent : store (name, id) = none) :
    runOn (RealFilesystem.read ⟨baseDir, name.name⟩ id.name) disk =
      (.error (.notFound ("No such entity or ID: ".toList ++
        (EntityPayload.mk baseDir name.name).makeName id.name)), disk) := by
  apply @run_read_missing _ _ _ .missing
  rw [stat_id represents nameNoNull idNoNull, absent]

theorem write_valid (idNoNull : '\x00' ∉ id.name) (data : Bytes) (valid : ValidId id.name) :
    ∃ next : Disk, runOn (RealFilesystem.write ⟨baseDir, name.name⟩ id.name data) disk =
        (.ok (), next) ∧
      Represents baseDir next.tree (store.set name id (some data)) := by
  have clear := clear_of_store represents nameNoNull id
  have noNull := represents.noNull
  obtain ⟨next, ran, wellFormed, lookups⟩ :=
    run_write data valid idNoNull represents.wellFormed clear
  refine ⟨next, ran, ?_⟩
  rw [place_of_id noNull nameNoNull] at lookups
  have offWay := entry_off_way represents nameNoNull
  apply represents.set_files wellFormed
  · intro station member
    have onWay := (way_to_name represents nameNoNull station).mpr (Or.inl member)
    have apart : station ≠ Tree.placeAt baseDir ++ [name.name, id.name] := by
      intro here
      exact offWay name id (here ▸ onWay)
    rw [lookups, if_neg apart, if_pos onWay]
  · rw [lookups, if_pos rfl]
    rfl
  · intro below contents other
    have apart : Tree.placeAt baseDir ++ below ≠ Tree.placeAt baseDir ++ [name.name, id.name] :=
      fun same => other (List.append_cancel_left same)
    rw [lookups, if_neg apart]
    split_ifs with before
    · constructor
      · simp
      · intro found
        exact absurd found (clear.noFile _ before contents)
    · rfl
  · intro otherName otherId other
    have apart : Tree.placeAt baseDir ++ [otherName.name, otherId.name] ≠
        Tree.placeAt baseDir ++ [name.name, id.name] := by
      intro same
      obtain ⟨sameName, sameId⟩ := entry_inj (List.append_cancel_left same)
      exact other (Prod.ext sameName sameId)
    rw [lookups, if_neg apart, if_neg (offWay otherName otherId)]
    exact represents.free otherName otherId

theorem remove_stored (idNoNull : '\x00' ∉ id.name) {contents : Bytes}
    (stored : store (name, id) = some contents) :
    ∃ next : Disk, runOn (RealFilesystem.remove ⟨baseDir, name.name⟩ id.name) disk =
        (.ok (), next) ∧
      Represents baseDir next.tree (store.set name id none) := by
  have noNull := represents.noNull
  have lies : disk.tree.stat ((EntityPayload.mk baseDir name.name).makePathTo id.name) =
      .ok (some contents) := by
    rw [stat_id represents nameNoNull idNoNull, stored]
  have found : disk.tree.lookup (Tree.placeAt baseDir ++ [name.name, id.name]) =
      some (some contents) := by
    rw [represents.lookup_file, stored]
    rfl
  have removed := run_remove_found lies
  rw [place_to (make_path_no_null noNull nameNoNull) idNoNull,
    place_of_id noNull nameNoNull] at removed
  refine ⟨_, removed, ?_⟩
  have inner : Tree.placeAt baseDir ++ [name.name, id.name] ≠ [] := by simp
  have lookups := Tree.lookup_discard disk.tree inner
  apply represents.set_files
  · apply Tree.discard_file_well_formed represents.wellFormed inner
    rw [found]
    simp
  · intro station member
    have directory := represents.way_there station member
    rw [lookups, if_neg, directory]
    rintro rfl
    exact represents.free name id directory
  · rw [lookups, if_pos rfl]
    rfl
  · intro below _ other
    rw [lookups, if_neg]
    intro same
    exact other (List.append_cancel_left same).symm
  · intro otherName otherId _
    rw [lookups]
    split_ifs
    · simp
    · exact represents.free otherName otherId

theorem remove_absent (idNoNull : '\x00' ∉ id.name) (absent : store (name, id) = none) :
    runOn (RealFilesystem.remove ⟨baseDir, name.name⟩ id.name) disk =
      (.error (.notFound ("Could not remove file: ".toList ++
        (EntityPayload.mk baseDir name.name).makePathTo id.name)), disk) := by
  apply run_remove_missing
  rw [stat_id represents nameNoNull idNoNull, absent]

theorem list_stored : ∃ (ids : List FileName) (next : Disk),
    runOn (RealFilesystem.listIds ⟨baseDir, name.name⟩) disk =
        (.ok (ids.map FileName.name), next) ∧
      next.tree = disk.tree ∧ store.Lists name ids := by
  have stat := stat_name represents nameNoNull
  have noFile : ∀ contents,
      disk.tree.stat (EntityPayload.mk baseDir name.name).makePath ≠ .ok (some contents) := by
    intro contents file
    rw [file] at stat
    cases found : disk.tree.lookup (Tree.placeAt baseDir ++ [name.name]) with
    | none =>
        rw [found] at stat
        cases stat
    | some node =>
        rw [found] at stat
        cases stat
        exact represents.no_file name contents found
  obtain ⟨ids, next, ran, same, distinct, listed⟩ := run_list_ids represents.wellFormed noFile
  refine ⟨ids, next, ran, same, distinct.of_map, fun id => ?_⟩
  rw [listed, place_of_id represents.noNull nameNoNull, represents.lookup_file,
    Option.isSome_iff_exists]
  constructor
  · rintro ⟨_, contents, stored⟩
    obtain ⟨value, isStored, _⟩ := Option.map_eq_some_iff.mp stored
    exact ⟨value, isStored⟩
  · rintro ⟨contents, stored⟩
    rw [stored]
    refine ⟨?_, contents, rfl⟩
    have lies := represents.lookup_file name id
    have split : Tree.placeAt baseDir ++ [name.name, id.name] =
        (Tree.placeAt baseDir ++ [name.name]) ++ [id.name] := by simp
    rw [stored, split] at lies
    rw [stat, represents.wellFormed.parents _ _ _ lies]

end Stat

theorem write_refused (baseDir : Bytes) (disk : Disk) (name : FileName) {id : FileName}
    (data : Bytes) (invalid : ¬ ValidId id.name) :
    runOn (RealFilesystem.write ⟨baseDir, name.name⟩ id.name data) disk =
      (.error (invalidId id.name), disk) := run_write_invalid data invalid

end Operations

end RestfulWebserver.Entity
