import RestfulWebserver.Entity.Confinement
import RestfulWebserver.Entity.Resolution

/-!
# The file system on a disk

A directory may be gone through in any order, another one each time. What each
operation of `RealFilesystem` returns and changes is given here by what lies at
the place of the entity.
-/

namespace RestfulWebserver.Entity

open RestfulWebserver.Library RestfulWebserver.Http

structure Arrangement where
  arrange : List FileName → List FileName
  permutes : ∀ entries, (arrange entries).Perm entries

structure Disk where
  tree : Tree
  /-- The order of the first iteration over a directory from here on, of the
  second, and so on. -/
  orders : Nat → Arrangement

namespace Disk

def iterated (disk : Disk) : Disk := { disk with orders := fun turn => disk.orders (turn + 1) }

def perform (call : FileCall) (disk : Disk) : call.Answer × Disk :=
  match call with
  | .directoryEntries path =>
      ((Tree.perform (.directoryEntries path) disk.tree).1.map (disk.orders 0).arrange,
        disk.iterated)
  | call => ((Tree.perform call disk.tree).1, { disk with tree := (Tree.perform call disk.tree).2 })

def runOn {Result : Type} (program : FileM Result) (disk : Disk) : Except Thrown Result × Disk :=
  Program.exec perform program.run disk

section Running

variable {Result Other : Type}

theorem run_bind_ok {program : FileM Result} {onward : Result → FileM Other} {disk next : Disk}
    {result : Result} (ran : runOn program disk = (.ok result, next)) :
    runOn (program >>= onward) disk = runOn (onward result) next := by
  have both := Program.exec_bind perform program.run (ExceptT.bindCont onward) disk
  change Program.exec perform program.run disk = _ at ran
  rw [ran] at both
  exact both

theorem run_bind_error {program : FileM Result} {onward : Result → FileM Other}
    {disk next : Disk} {thrown : Thrown} (ran : runOn program disk = (.error thrown, next)) :
    runOn (program >>= onward) disk = (.error thrown, next) := by
  have both := Program.exec_bind perform program.run (ExceptT.bindCont onward) disk
  change Program.exec perform program.run disk = _ at ran
  rw [ran] at both
  exact both

theorem bind_ran {program : FileM Result} {onward : Result → FileM Other} {disk last : Disk}
    {result : Other} (ran : runOn (program >>= onward) disk = (.ok result, last)) :
    ∃ first next, runOn program disk = (.ok first, next) ∧
      runOn (onward first) next = (.ok result, last) := by
  cases outcome : (runOn program disk).1 with
  | error thrown =>
      have failed := @run_bind_error _ _ program onward disk _ _ (Prod.ext outcome rfl)
      rw [failed] at ran
      cases ran
  | ok first =>
      have split : runOn program disk = (.ok first, (runOn program disk).2) := Prod.ext outcome rfl
      rw [run_bind_ok split] at ran
      exact ⟨first, _, split, ran⟩

theorem run_pure (result : Result) (disk : Disk) :
    runOn (pure result) disk = (.ok result, disk) := rfl

theorem run_throw (thrown : Thrown) (disk : Disk) :
    runOn (throw thrown : FileM Result) disk = (.error thrown, disk) := rfl

theorem run_exists (path : Bytes) (disk : Disk) :
    runOn (pathExists path) disk = (.ok (disk.tree.stat path).isOk, disk) := rfl

theorem run_regular (directory : Bytes) (entry : FileName) (disk : Disk) :
    runOn (isRegularFile directory entry) disk =
      (.ok ((disk.tree.lookup (Tree.placeAt directory ++ [entry.name])).join).isSome, disk) := rfl

theorem run_read {path : Bytes} {disk : Disk} {node : Option Bytes}
    (found : disk.tree.stat path = .ok node) :
    runOn (readFile path) disk = (.ok (some (node.getD [])), disk) := by
  simp only [runOn, readFile, ExceptT.run, ExceptT.mk, Program.exec, perform, Tree.perform, found]

theorem run_create (path : Bytes) (disk : Disk) :
    runOn (createDirectories path) disk =
      ((disk.tree.createDirectories path).1.mapError .other,
        { disk with tree := (disk.tree.createDirectories path).2 }) := rfl

end Running

theorem run_create_there {path : Bytes} {disk : Disk} (there : disk.tree.stat path = .ok none) :
    runOn (createDirectories path) disk = (.ok (), disk) := by
  rw [run_create, Tree.create_there there]
  rfl

theorem create_ran {path : Bytes} {disk next : Disk}
    (ran : runOn (createDirectories path) disk = (.ok (), next)) :
    (disk.tree.createDirectories path).1 = .ok () ∧
      next = { disk with tree := (disk.tree.createDirectories path).2 } := by
  rw [run_create, Prod.mk.injEq] at ran
  cases made : (disk.tree.createDirectories path).1 with
  | error what =>
      rw [made] at ran
      cases ran.1
  | ok created => exact ⟨rfl, ran.2.symm⟩

theorem perform_well_formed (call : FileCall) (disk : Disk) (wellFormed : disk.tree.WellFormed) :
    (perform call disk).2.tree.WellFormed := by
  have kept := Tree.perform_well_formed wellFormed call
  cases call <;> first | exact kept | exact wellFormed

theorem run_well_formed {Result : Type} {program : FileM Result} {disk next : Disk}
    {outcome : Except Thrown Result} (wellFormed : disk.tree.WellFormed)
    (ran : runOn program disk = (outcome, next)) : next.tree.WellFormed := by
  have kept := @Program.exec_invariant _ _ _ _ perform (fun world => world.tree.WellFormed)
    perform_well_formed program.run disk wellFormed
  change Program.exec perform program.run disk = _ at ran
  rw [ran] at kept
  exact kept

/-! ## One operation at a time -/

/-- Where the files of an entity are. -/
def placeOf (entity : EntityPayload) : List Bytes := Tree.placeAt entity.makePath

theorem components_file_name (entry : FileName) : components entry.name = [entry.name] :=
  components_single entry.nonempty entry.noSlash entry.notDot

theorem file_name_of (entry : FileName) : Tree.fileName entry.name = some entry := by
  rw [Tree.fileName, dif_pos ⟨entry.nonempty, entry.noSlash, entry.notDot, entry.notDotDot⟩]

theorem name_of_file_name {name : Bytes} {entry : FileName}
    (named : Tree.fileName name = some entry) : entry.name = name := by
  unfold Tree.fileName at named
  split_ifs at named
  cases named
  rfl

section Names

variable {entity : EntityPayload} {tree : Tree} {id : FileName}

theorem enter_file_name (place : List Bytes) (entry : FileName) :
    Tree.enter place entry.name = place ++ [entry.name] :=
  Tree.enter_name entry.nonempty entry.notDot entry.notDotDot place

theorem place_to (noNull : '\x00' ∉ entity.makePath) (idNoNull : '\x00' ∉ id.name) :
    Tree.placeAt (entity.makePathTo id.name) = placeOf entity ++ [id.name] := by
  have joined := Tree.place_join noNull id.name
  rw [c_string_whole idNoNull, components_file_name] at joined
  exact joined.trans (enter_file_name _ id)

theorem resolve_to (noNull : '\x00' ∉ entity.makePath) (idNoNull : '\x00' ∉ id.name)
    (directory : tree.stat entity.makePath = .ok none) :
    tree.resolve (entity.makePathTo id.name) = .ok (placeOf entity ++ [id.name]) := by
  have cut := (Tree.directory_iff.mp directory).1
  have joined := @Tree.resolve_join tree entity.makePath id.name noNull (Tree.text_of_cut cut)
    id.nonempty id.noSlash idNoNull
  rw [directory, enter_file_name] at joined
  exact joined

theorem stat_to (noNull : '\x00' ∉ entity.makePath) (idNoNull : '\x00' ∉ id.name)
    (directory : tree.stat entity.makePath = .ok none) {node : Option Bytes}
    (found : tree.lookup (placeOf entity ++ [id.name]) = some node) :
    tree.stat (entity.makePathTo id.name) = .ok node := by
  simp only [Tree.stat, resolve_to noNull idNoNull directory, found]

theorem stat_to_cut (null : '\x00' ∈ entity.makePath) (id : Bytes) :
    tree.stat (entity.makePathTo id) = tree.stat entity.makePath :=
  Tree.stat_cut (join_cut null id)

end Names

section Operations

variable {entity : EntityPayload} {disk : Disk}

def holdsFile (tree : Tree) (place : List Bytes) (name : Bytes) : Bool :=
  ((tree.lookup (place ++ [name])).join).isSome

theorem holds_file_iff (tree : Tree) (place : List Bytes) (name : Bytes) :
    holdsFile tree place name = true ↔
      ∃ contents, tree.lookup (place ++ [name]) = some (some contents) := by
  rw [holdsFile, Option.isSome_iff_exists]
  simp only [Option.join_eq_some_iff]

theorem run_regular_files (dirPath : Bytes) (entries : List FileName) :
    runOn (RealFilesystem.regularFiles dirPath entries) disk =
      (.ok ((entries.filter fun entry =>
        holdsFile disk.tree (Tree.placeAt dirPath) entry.name).map FileName.name), disk) := by
  induction entries with
  | nil => rfl
  | cons entry later ih =>
      rw [RealFilesystem.regularFiles, run_bind_ok (run_regular _ _ _), run_bind_ok ih, run_pure]
      simp only [List.filter_cons, holdsFile]
      split_ifs <;> simp

theorem filter_map_names (names : List Bytes) :
    (names.filterMap Tree.fileName).map FileName.name =
      names.filter fun name => (Tree.fileName name).isSome := by
  induction names with
  | nil => rfl
  | cons name rest ih =>
      rw [List.filterMap_cons, List.filter_cons]
      cases named : Tree.fileName name with
      | none => simpa using ih
      | some entry => simp [ih, name_of_file_name named]

/-- A directory shows each of its entries once. -/
theorem run_directory_entries (wellFormed : disk.tree.WellFormed)
    (directory : disk.tree.stat entity.makePath = .ok none) :
    ∃ entries, runOn (directoryEntries entity.makePath) disk =
        (.ok entries, disk.iterated) ∧
      (entries.map FileName.name).Nodup ∧
      ∀ entry, entry ∈ entries ↔
        (disk.tree.lookup (placeOf entity ++ [entry.name])).isSome = true := by
  refine ⟨(disk.orders 0).arrange
    ((disk.tree.children (placeOf entity)).filterMap Tree.fileName), ?_, ?_, fun entry => ?_⟩
  · simp only [runOn, directoryEntries, tried, ExceptT.run, ExceptT.mk, Program.exec,
      perform, Tree.perform, directory, id, Except.map, Except.mapError]
    rfl
  · rw [(((disk.orders 0).permutes _).map FileName.name).nodup_iff, filter_map_names]
    exact (Tree.children_nodup wellFormed.distinct _).filter _
  · rw [((disk.orders 0).permutes _).mem_iff, List.mem_filterMap, ← Tree.mem_children]
    constructor
    · intro ⟨name, member, named⟩
      rwa [name_of_file_name named]
    · intro member
      exact ⟨entry.name, member, file_name_of entry⟩

/-- The listing of an entity holds each file once that lies in its directory. -/
theorem run_list_ids (wellFormed : disk.tree.WellFormed)
    (noFile : ∀ contents, disk.tree.stat entity.makePath ≠ .ok (some contents)) :
    ∃ (entries : List FileName) (next : Disk), runOn (RealFilesystem.listIds entity) disk =
        (.ok (entries.map FileName.name), next) ∧ next.tree = disk.tree ∧
      (entries.map FileName.name).Nodup ∧
      ∀ entry, entry ∈ entries ↔ disk.tree.stat entity.makePath = .ok none ∧
        ∃ contents, disk.tree.lookup (placeOf entity ++ [entry.name]) = some (some contents) := by
  have entered : ∀ stat, disk.tree.stat entity.makePath = stat →
      runOn (RealFilesystem.listIds entity) disk =
        runOn (if !stat.isOk then pure []
          else directoryEntries entity.makePath >>=
            RealFilesystem.regularFiles entity.makePath) disk := by
    intro stat found
    rw [RealFilesystem.listIds, run_bind_ok (run_exists _ _), ← found]
  cases found : disk.tree.stat entity.makePath with
  | error failure =>
      refine ⟨[], disk, entered _ found, rfl, List.nodup_nil, fun entry => ?_⟩
      constructor
      · intro member
        cases member
      · intro both
        cases both.1
  | ok node =>
      cases node with
      | some contents => exact absurd found (noFile contents)
      | none =>
          obtain ⟨entries, listed, distinct, shown⟩ := run_directory_entries wellFormed found
          refine ⟨entries.filter fun entry =>
            holdsFile disk.tree (placeOf entity) entry.name, disk.iterated, ?_, rfl, ?_,
            fun entry => ?_⟩
          · rw [entered _ found]
            change runOn (directoryEntries entity.makePath >>= _) disk = _
            rw [run_bind_ok listed, run_regular_files]
            rfl
          · exact distinct.sublist (List.filter_sublist.map FileName.name)
          · rw [List.mem_filter, shown, holds_file_iff]
            constructor
            · intro both
              exact ⟨rfl, both.2⟩
            · rintro ⟨_, contents, lies⟩
              rw [lies]
              exact ⟨rfl, contents, rfl⟩

theorem run_next_id {ids : List Bytes} {next : Disk}
    (listed : runOn (RealFilesystem.listIds entity) disk = (.ok ids, next)) :
    runOn (RealFilesystem.nextId entity) disk =
      (.ok (RealFilesystem.intToString ((RealFilesystem.maxId ids + 1).bmod (2 ^ 32))), next) := by
  rw [RealFilesystem.nextId, run_bind_ok listed, run_pure]

theorem run_write_invalid {id : Bytes} (data : Bytes) (invalid : ¬ ValidId id) :
    runOn (RealFilesystem.write entity id data) disk = (.error (invalidId id), disk) := by
  rw [RealFilesystem.write, check_id_of_invalid invalid]
  exact run_bind_error (run_throw _ _)

theorem run_write_file {path : Bytes} (data : Bytes) {disk : Disk} {place : List Bytes}
    (here : disk.tree.resolve path = .ok place) (free : disk.tree.lookup place ≠ some none) :
    runOn (writeFile path data) disk =
      (.ok true, { disk with tree := disk.tree.put place (some data) }) := by
  simp only [runOn, writeFile, ExceptT.run, ExceptT.mk, Program.exec, perform, Tree.perform,
    here, if_neg free]

theorem run_write_taken {path : Bytes} (data : Bytes) {disk : Disk}
    (directory : disk.tree.stat path = .ok none) :
    runOn (writeFile path data) disk = (.ok false, disk) := by
  obtain ⟨resolved, taken⟩ := (Tree.stat_ok_iff none).mp directory
  simp only [runOn, writeFile, ExceptT.run, ExceptT.mk, Program.exec, perform, Tree.perform,
    resolved, if_pos taken]

/-- Nothing is in the way of a file of the entity. -/
structure Clear (entity : EntityPayload) (id : Bytes) (tree : Tree) : Prop where
  text : entity.makePath ≠ []
  noNull : '\x00' ∉ entity.makePath
  noFile : ∀ station ∈ Tree.way entity.makePath, ∀ contents,
    tree.lookup station ≠ some (some contents)
  outside : placeOf entity ++ [id] ∉ Tree.way entity.makePath
  free : tree.lookup (placeOf entity ++ [id]) ≠ some none

variable {id : FileName}

/-- Where directories were made and a stream was opened nothing was in the way. -/
theorem write_clear {data : Bytes} {next : Disk} (idNoNull : '\x00' ∉ id.name)
    (created : runOn (createDirectories entity.makePath) disk = (.ok (), next))
    (opened : runOn (writeFile (entity.makePathTo id.name) data) next ≠ (.ok false, next)) :
    Clear entity id.name disk.tree := by
  obtain ⟨made, isNext⟩ := create_ran created
  obtain ⟨cut, noFile, _⟩ := Tree.create_ok made
  have directory : next.tree.stat entity.makePath = .ok none := by
    rw [isNext]
    exact Tree.create_stat made
  have lookups := Tree.create_lookup made
  have noNull : '\x00' ∉ entity.makePath := by
    intro null
    apply opened
    apply run_write_taken
    rw [stat_to_cut null, directory]
  have notTaken : next.tree.lookup (placeOf entity ++ [id.name]) ≠ some none := by
    intro taken
    apply opened
    apply run_write_taken
    rw [Tree.stat_ok_iff, place_to noNull idNoNull]
    exact ⟨resolve_to noNull idNoNull directory, taken⟩
  rw [isNext] at notTaken
  change (disk.tree.createDirectories entity.makePath).2.lookup _ ≠ _ at notTaken
  rw [lookups] at notTaken
  refine ⟨Tree.text_of_cut cut, noNull, noFile, ?_, ?_⟩
  · intro inside
    exact notTaken (if_pos inside)
  · intro directory
    apply notTaken
    rw [directory, ite_self]

theorem run_write (data : Bytes) (valid : ValidId id.name) (idNoNull : '\x00' ∉ id.name)
    (wellFormed : disk.tree.WellFormed) (clear : Clear entity id.name disk.tree) :
    ∃ next, runOn (RealFilesystem.write entity id.name data) disk = (.ok (), next) ∧
      next.tree.WellFormed ∧
      ∀ other, next.tree.lookup other =
        if other = placeOf entity ++ [id.name] then some (some data)
        else if other ∈ Tree.way entity.makePath then some none else disk.tree.lookup other := by
  have cut : cString entity.makePath ≠ [] := by
    rw [c_string_whole clear.noNull]
    exact clear.text
  have made := Tree.create_makes cut clear.noFile
  have lookups := Tree.create_lookup made
  have madeWell := Tree.create_well_formed wellFormed entity.makePath
  let directories : Tree := (disk.tree.createDirectories entity.makePath).2
  have directory : directories.stat entity.makePath = .ok none := Tree.create_stat made
  have stillFree : directories.lookup (placeOf entity ++ [id.name]) ≠ some none := by
    rw [lookups, if_neg clear.outside]
    exact clear.free
  refine ⟨{ disk with tree := directories.put (placeOf entity ++ [id.name]) (some data) },
    ?_, ?_, ?_⟩
  · have created : runOn (createDirectories entity.makePath) disk =
        (.ok (), { disk with tree := directories }) := by
      rw [run_create, made]
      rfl
    have written := @run_write_file (entity.makePathTo id.name) data
      { disk with tree := directories } _ (resolve_to clear.noNull idNoNull directory) stillFree
    rw [RealFilesystem.write, check_id_of_valid valid, pure_bind, run_bind_ok created,
      run_bind_ok written]
    rfl
  · have inDirectory := ((Tree.stat_ok_iff none).mp directory).2
    exact Tree.put_file_well_formed madeWell inDirectory stillFree data
  · intro other
    change (directories.put _ _).lookup other = _
    rw [Tree.lookup_put _ (by simp), lookups]
    by_cases same : other = placeOf entity ++ [id.name]
    · simp [same]
    · simp [same, Ne.symm same]

theorem written_stat {data : Bytes} {tree next : Tree} (idNoNull : '\x00' ∉ id.name)
    (clear : Clear entity id.name tree)
    (lookups : ∀ other, next.lookup other =
      if other = placeOf entity ++ [id.name] then some (some data)
      else if other ∈ Tree.way entity.makePath then some none else tree.lookup other) :
    next.stat entity.makePath = .ok none ∧
      next.stat (entity.makePathTo id.name) = .ok (some data) := by
  have cut : cString entity.makePath ≠ [] := by
    rw [c_string_whole clear.noNull]
    exact clear.text
  have directory : next.stat entity.makePath = .ok none := by
    refine Tree.directory_iff.mpr ⟨cut, fun station member => ?_⟩
    rw [lookups, if_neg, if_pos member]
    rintro rfl
    exact clear.outside member
  refine ⟨directory, stat_to clear.noNull idNoNull directory ?_⟩
  rw [lookups, if_pos rfl]

theorem run_read_found {id contents : Bytes}
    (stored : disk.tree.stat (entity.makePathTo id) = .ok (some contents)) :
    runOn (RealFilesystem.read entity id) disk = (.ok contents, disk) := by
  rw [RealFilesystem.read, run_bind_ok (run_exists _ _), stored]
  change runOn (readFile (entity.makePathTo id) >>= _) disk = _
  rw [run_bind_ok (run_read stored)]
  rfl

theorem run_read_missing {id : Bytes} {failure : Tree.Failure}
    (missing : disk.tree.stat (entity.makePathTo id) = .error failure) :
    runOn (RealFilesystem.read entity id) disk =
      (.error (.notFound ("No such entity or ID: ".toList ++ entity.makeName id)), disk) := by
  rw [RealFilesystem.read, run_bind_ok (run_exists _ _), missing]
  rfl

theorem run_remove_found {id contents : Bytes}
    (stored : disk.tree.stat (entity.makePathTo id) = .ok (some contents)) :
    runOn (RealFilesystem.remove entity id) disk =
      (.ok (), { disk with
        tree := disk.tree.discard (Tree.placeAt (entity.makePathTo id)) }) := by
  have removed : runOn (removePath (entity.makePathTo id)) disk =
      (.ok true, { disk with
        tree := disk.tree.discard (Tree.placeAt (entity.makePathTo id)) }) := by
    simp only [runOn, removePath, tried, ExceptT.run, ExceptT.mk, Program.exec, perform,
      Tree.perform, stored, id_eq, Except.mapError]
  rw [RealFilesystem.remove, run_bind_ok removed]
  rfl

theorem run_remove_missing {id : Bytes}
    (missing : disk.tree.stat (entity.makePathTo id) = .error .missing) :
    runOn (RealFilesystem.remove entity id) disk =
      (.error (.notFound ("Could not remove file: ".toList ++ entity.makePathTo id)), disk) := by
  have absent : runOn (removePath (entity.makePathTo id)) disk = (.ok false, disk) := by
    simp only [runOn, removePath, tried, ExceptT.run, ExceptT.mk, Program.exec, perform,
      Tree.perform, missing, id_eq, Except.mapError]
  rw [RealFilesystem.remove, run_bind_ok absent]
  rfl

end Operations

end Disk

end RestfulWebserver.Entity
