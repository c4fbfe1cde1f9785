import RestfulWebserver.Entity.Refinement

/-!
# New entities

`POST` numbers a new entity one above the largest id that is a number. Behind the
largest `int` there is none: the addition overflows, and what it wraps around to
is no valid id.
-/

namespace RestfulWebserver.Entity

open RestfulWebserver.Library RestfulWebserver.Http Disk

def succeeded : (call : FileCall) → call.Answer → Bool
  | .createDirectories _, answer => answer.isOk
  | .pathExists _, answer => answer.isOk
  | .readFile _, answer => answer.isSome
  | .writeFile _ _, isOpen => isOpen
  | .remove _, answer => answer.isOk
  | .directoryEntries _, answer => answer.isOk
  | .isRegularFile _ _, answer => answer.isOk

/-- Every call of the program on this disk succeeds. -/
def CallsSucceed {Result : Type} (program : FileM Result) (disk : Disk) : Prop :=
  Program.Answered perform (fun call answer => succeeded call answer = true) program.run disk

def entityOf (baseDir : Bytes) (request : HttpRequest) : EntityPayload :=
  ⟨baseDir, (entityParts request.path).1⟩

/-- On this disk the request creates an entity under an id that was not there,
and changes no other file. -/
structure CreatesFresh (baseDir : Bytes) (request : HttpRequest) (disk : Disk) (newId : Bytes) :
    Prop where
  numbered : ∃ created listed, runOn (RealFilesystem.create baseDir) disk = (.ok (), created) ∧
    runOn (RealFilesystem.nextId (entityOf baseDir request)) created = (.ok newId, listed)
  valid : ValidId newId
  absent : ∀ contents,
    disk.tree.lookup (placeOf (entityOf baseDir request) ++ [newId]) ≠ some (some contents)
  answered : (runOn (EntityHandler.handleRequest baseDir request) disk).1 = .ok (idResponse newId)
  retrieved : (runOn (RealFilesystem.read (entityOf baseDir request) newId)
    (runOn (EntityHandler.handleRequest baseDir request) disk).2).1 = .ok request.body
  kept : ∀ place contents, disk.tree.lookup place = some (some contents) →
    (runOn (EntityHandler.handleRequest baseDir request) disk).2.tree.lookup place =
      some (some contents)

/-- No id that a listing shows is read as the largest `int`. Where the directory of
the entity cannot be reached before it is made, no file has the first number in it. -/
structure NumberFree (entity : EntityPayload) (tree : Tree) : Prop where
  noLargest : (tree.createDirectories entity.path).2.stat entity.makePath = .ok none →
    ∀ id : FileName,
      (∃ contents, tree.lookup (placeOf entity ++ [id.name]) = some (some contents)) →
        stoi id.name ≠ .ok intMax
  firstFree : (tree.createDirectories entity.path).2.stat entity.makePath ≠ .ok none →
    ∀ contents, tree.lookup (placeOf entity ++ ["1".toList]) ≠ some (some contents)

theorem serve_post_entity {baseDir : Bytes} {request : HttpRequest}
    (post : request.method = "POST".toList) :
    EntityHandler.serve baseDir request = (do
      let newId ← RealFilesystem.nextId (entityOf baseDir request)
      RealFilesystem.write (entityOf baseDir request) newId request.body
      pure (idResponse newId)) := by
  have parts : entityParts request.path =
      ((entityOf baseDir request).name, (entityParts request.path).2) := rfl
  exact serve_post parts post

section Succeeding

variable {Result Other : Type} {disk next : Disk}

theorem calls_first {program : FileM Result} {onward : Result → FileM Other}
    (succeed : CallsSucceed (program >>= onward) disk) : CallsSucceed program disk := by
  unfold CallsSucceed at succeed
  rw [ExceptT.run_bind, Program.answered_bind] at succeed
  exact succeed.1

theorem calls_after {program : FileM Result} {onward : Result → FileM Other} {result : Result}
    (succeed : CallsSucceed (program >>= onward) disk)
    (ran : runOn program disk = (.ok result, next)) : CallsSucceed (onward result) next := by
  unfold CallsSucceed at succeed
  rw [ExceptT.run_bind, Program.answered_bind] at succeed
  have later := succeed.2
  change Program.exec perform program.run disk = _ at ran
  rw [ran] at later
  exact later

theorem calls_lifted {program : Program FileCall FileCall.Answer Result}
    (succeed : CallsSucceed (ExceptT.lift program) disk) :
    Program.Answered perform (fun call answer => succeeded call answer = true) program disk := by
  have bound : (ExceptT.lift program : FileM Result).run =
      program >>= fun result => pure (Except.ok result) := rfl
  unfold CallsSucceed at succeed
  rw [bound, Program.answered_bind] at succeed
  exact succeed.1

theorem create_succeeds {path : Bytes} (succeed : CallsSucceed (createDirectories path) disk) :
    ∃ next, runOn (createDirectories path) disk = (.ok (), next) := by
  have first : (disk.tree.createDirectories path).1.isOk = true := succeed.1
  rw [run_create]
  cases made : (disk.tree.createDirectories path).1 with
  | error what =>
      rw [made] at first
      cases first
  | ok created => exact ⟨_, rfl⟩

variable {entity : EntityPayload}

theorem listed_no_file (succeed : CallsSucceed (RealFilesystem.listIds entity) disk)
    (contents : Bytes) : disk.tree.stat entity.makePath ≠ .ok (some contents) := by
  intro file
  have entered := calls_after succeed (run_exists entity.makePath disk)
  rw [file] at entered
  have read : succeeded (.directoryEntries entity.makePath)
      (perform (.directoryEntries entity.makePath) disk).1 = true := (calls_first entered).1
  simp only [perform, Tree.perform, file] at read
  cases read

/-- Where a write succeeds nothing is in its way. -/
theorem write_succeeds {id : FileName} {data : Bytes} (valid : ValidId id.name)
    (idNoNull : '\x00' ∉ id.name)
    (succeed : CallsSucceed (RealFilesystem.write entity id.name data) disk) :
    Clear entity id.name disk.tree := by
  rw [RealFilesystem.write, check_id_of_valid valid, pure_bind] at succeed
  obtain ⟨made, created⟩ := create_succeeds (calls_first succeed)
  have entered := calls_after succeed created
  have opens : succeeded (.writeFile (entity.makePathTo id.name) data)
      (perform (.writeFile (entity.makePathTo id.name) data) made).1 = true :=
    (calls_first entered).1
  apply write_clear idNoNull created
  intro taken
  have shut : (perform (.writeFile (entity.makePathTo id.name) data) made).1 = false :=
    Except.ok.inj (Prod.mk.inj taken).1
  rw [shut] at opens
  cases opens

end Succeeding

section Posting

variable {baseDir : Bytes} {request : HttpRequest} {disk : Disk}

theorem root_made (wellFormed : disk.tree.WellFormed)
    (succeed : CallsSucceed (RealFilesystem.create baseDir) disk) :
    ∃ created, runOn (RealFilesystem.create baseDir) disk = (.ok (), created) ∧
      created.tree = (disk.tree.createDirectories baseDir).2 ∧ created.tree.WellFormed ∧
      ∀ place contents, created.tree.lookup place = some (some contents) ↔
        disk.tree.lookup place = some (some contents) := by
  obtain ⟨created, ran⟩ := create_succeeds succeed
  obtain ⟨made, isCreated⟩ := create_ran ran
  have noFile := (Tree.create_ok made).2.1
  have lookups := Tree.create_lookup made
  subst isCreated
  refine ⟨_, ran, rfl, Tree.create_well_formed wellFormed _, fun place contents => ?_⟩
  rw [lookups]
  split_ifs with inside
  · constructor
    · simp
    · intro file
      exact absurd file (noFile place inside contents)
  · rfl

theorem post_runs (wellFormed : disk.tree.WellFormed)
    (post : request.method = "POST".toList)
    (succeed : CallsSucceed (EntityHandler.handleRequest baseDir request) disk) :
    ∃ (created listed : Disk) (entries : List FileName),
      runOn (RealFilesystem.create baseDir) disk = (.ok (), created) ∧
      runOn (RealFilesystem.nextId (entityOf baseDir request)) created =
        (.ok (Store.newId entries).name, listed) ∧
      listed.tree.WellFormed ∧
      (∀ place contents, listed.tree.lookup place = some (some contents) ↔
        disk.tree.lookup place = some (some contents)) ∧
      (∀ entry, entry ∈ entries ↔
        (disk.tree.createDirectories baseDir).2.stat (entityOf baseDir request).makePath =
          .ok none ∧
        ∃ contents, disk.tree.lookup (placeOf (entityOf baseDir request) ++ [entry.name]) =
          some (some contents)) ∧
      CallsSucceed (RealFilesystem.write (entityOf baseDir request) (Store.newId entries).name
        request.body) listed := by
  rw [EntityHandler.handleRequest] at succeed
  obtain ⟨created, made, isCreated, madeWell, sameFiles⟩ :=
    root_made wellFormed (calls_first succeed)
  have onRoot := calls_after succeed made
  have served := calls_lifted onRoot
  rw [EntityHandler.locked, Program.answered_bind] at served
  have calls : CallsSucceed (EntityHandler.serve baseDir request) created := served.1
  rw [serve_post_entity post] at calls
  have listing := calls_first calls
  rw [RealFilesystem.nextId] at listing
  obtain ⟨entries, listed, ran, sameTree, _, shown⟩ :=
    run_list_ids madeWell (listed_no_file (calls_first listing))
  have numbered := run_next_id ran
  refine ⟨created, listed, entries, made, numbered, ?_, ?_, ?_, ?_⟩
  · rw [sameTree]
    exact madeWell
  · rw [sameTree]
    exact sameFiles
  · intro entry
    rw [shown, ← isCreated]
    simp only [sameFiles]
  · have writing := calls_after calls numbered
    exact calls_first writing

/-- The next number is a valid id unless it is one above the largest `int`. -/
theorem new_id_valid_iff (entries : List FileName) :
    ValidId (Store.newId entries).name ↔
      ∀ id ∈ entries.map FileName.name, stoi id ≠ .ok intMax := by
  constructor
  · intro ⟨value, read, positive⟩ id member isLargest
    have wraps := Store.next_number_wraps member isLargest
    change stoi (Store.newId entries).name = _ at wraps
    rw [wraps] at read
    cases read
    revert positive
    decide
  · intro noLargest
    have number := Store.next_number noLargest
    have positive := (Store.max_id_spec (entries.map FileName.name)).1
    exact ⟨_, number, by omega⟩

theorem post_fresh (wellFormed : disk.tree.WellFormed)
    (post : request.method = "POST".toList)
    (succeed : CallsSucceed (EntityHandler.handleRequest baseDir request) disk) :
    (∃ newId, CreatesFresh baseDir request disk newId) ↔
      NumberFree (entityOf baseDir request) disk.tree := by
  obtain ⟨created, listed, entries, made, numbered, listedWell, sameFiles, shown, writes⟩ :=
    post_runs wellFormed post succeed
  -- nothing is listed of what cannot be reached
  have unreached : (disk.tree.createDirectories baseDir).2.stat
      (entityOf baseDir request).makePath ≠ .ok none → Store.newId entries = Store.newId [] := by
    intro missing
    have none : entries = [] := by
      apply List.eq_nil_iff_forall_not_mem.mpr
      intro entry member
      exact missing ((shown entry).mp member).1
    rw [none]
  have first : (Store.newId []).name = "1".toList := by decide +kernel
  constructor
  · intro ⟨newId, fresh⟩
    obtain ⟨otherCreated, otherListed, otherMade, otherNumbered⟩ := fresh.numbered
    rw [made, Prod.mk.injEq] at otherMade
    rw [← otherMade.2, numbered, Prod.mk.injEq, Except.ok.injEq] at otherNumbered
    constructor
    · intro reached id file
      have valid := fresh.valid
      rw [← otherNumbered.1, new_id_valid_iff] at valid
      exact valid id.name (List.mem_map_of_mem ((shown id).mpr ⟨reached, file⟩))
    · intro missing
      rw [← first, ← unreached missing, otherNumbered.1]
      exact fresh.absent
  · intro free
    have noLargest : ∀ id ∈ entries.map FileName.name, stoi id ≠ .ok intMax := by
      rw [List.forall_mem_map]
      intro id member
      obtain ⟨reached, file⟩ := (shown id).mp member
      exact free.noLargest reached id file
    have valid := (new_id_valid_iff entries).mpr noLargest
    have noNull := Store.new_id_no_null entries
    have clear := write_succeeds valid noNull writes
    obtain ⟨next, written, _, lookups⟩ := run_write request.body valid noNull listedWell clear
    have served : runOn (EntityHandler.serve baseDir request) created =
        (.ok (idResponse (Store.newId entries).name), next) := by
      rw [serve_post_entity post, run_bind_ok numbered, run_bind_ok written]
      rfl
    have handled := run_handle made served
    have absent : ∀ contents, disk.tree.lookup
        (placeOf (entityOf baseDir request) ++ [(Store.newId entries).name]) ≠
          some (some contents) := by
      intro contents file
      by_cases reached : (disk.tree.createDirectories baseDir).2.stat
          (entityOf baseDir request).makePath = .ok none
      · apply Store.next_number_absent noLargest
        exact List.mem_map_of_mem ((shown (Store.newId entries)).mpr ⟨reached, contents, file⟩)
      · rw [unreached reached, first] at file
        exact free.firstFree reached contents file
    refine ⟨(Store.newId entries).name, ⟨created, listed, made, numbered⟩, valid, absent, ?_, ?_,
      fun place contents file => ?_⟩
    · rw [handled]
      rfl
    · rw [handled, run_read_found (written_stat noNull clear lookups).2]
    · have apart : place ≠ placeOf (entityOf baseDir request) ++ [(Store.newId entries).name] := by
        intro same
        rw [same] at file
        exact absent contents file
      have kept := (sameFiles place contents).mpr file
      rw [handled]
      change next.tree.lookup place = _
      rw [lookups, if_neg apart, if_neg, kept]
      intro before
      exact clear.noFile place before contents kept

end Posting

theorem reached_well_formed {baseDir : Bytes} {start : Disk}
    (emptyBase : EmptyBase baseDir start.tree) (requests : List HttpRequest) :
    (EntityHandler.handleAll baseDir requests start).2.tree.WellFormed :=
  @Program.in_turn_invariant _ _ _ _ perform (fun disk => disk.tree.WellFormed)
    perform_well_formed _ _ emptyBase.wellFormed

/-- In every state that requests lead to, a `POST` whose file calls succeed
creates a fresh entity exactly when the number after the largest one is free. -/
theorem post_fresh_iff (baseDir : Bytes) (start : Disk)
    (emptyBase : EmptyBase baseDir start.tree) (before : List HttpRequest)
    (request : HttpRequest) (post : request.method = "POST".toList)
    (succeed : CallsSucceed (EntityHandler.handleRequest baseDir request)
      (EntityHandler.handleAll baseDir before start).2) :
    (∃ newId, CreatesFresh baseDir request (EntityHandler.handleAll baseDir before start).2 newId) ↔
      NumberFree (entityOf baseDir request)
        (EntityHandler.handleAll baseDir before start).2.tree :=
  post_fresh (reached_well_formed emptyBase before) post succeed

instance (disk : Disk) {Result : Type} (program : FileM Result) :
    Decidable (CallsSucceed program disk) :=
  inferInstanceAs (Decidable (Program.Answered perform _ program.run disk))

def fortyName : FileName := ⟨"40b".toList, by decide, by decide, by decide, by decide⟩

def twoStored : List HttpRequest :=
  [itemMessage "PUT".toList "a".toList (some twelveName),
    itemMessage "PUT".toList "b".toList (some fortyName)]

/-- Behind `12` and `40b` comes `41`. -/
theorem post_fresh_two :
    ∃ newId, CreatesFresh "/data".toList (itemMessage "POST".toList "c".toList none)
      (EntityHandler.handleAll "/data".toList twoStored (emptyDisk "data".toList)).2 newId := by
  have ids : (EntityHandler.handleAll "/data".toList twoStored
      (emptyDisk "data".toList)).2.tree.children ["data".toList, "x".toList] =
        ["40b".toList, "12".toList] := by decide +kernel
  apply (post_fresh_iff "/data".toList (emptyDisk "data".toList) empty_disk_base twoStored
    (itemMessage "POST".toList "c".toList none) rfl (by decide +kernel)).mpr
  constructor
  · intro _ id ⟨contents, file⟩
    have member := (Tree.mem_children _ ["data".toList, "x".toList] id.name).mpr
      (Option.isSome_iff_exists.mpr ⟨_, file⟩)
    rw [ids] at member
    rcases List.mem_cons.mp member with forty | other
    · rw [forty]
      decide +kernel
    · rw [List.mem_singleton.mp other]
      decide +kernel
  · intro missing
    exact absurd (by decide +kernel) missing

def largestName : FileName :=
  ⟨"2147483647".toList, by decide, by decide, by decide, by decide⟩

/-- After a `PUT` under the largest number no `POST` creates anything. -/
theorem post_behind_largest :
    ¬ ∀ (baseDir : Bytes) (start : Disk), EmptyBase baseDir start.tree →
      ∀ (before : List HttpRequest) (request : HttpRequest),
        (∀ earlier ∈ before, earlier.method ∈ ["POST".toList, "PUT".toList, "DELETE".toList]) →
        request.method = "POST".toList →
        CallsSucceed (EntityHandler.handleRequest baseDir request)
          (EntityHandler.handleAll baseDir before start).2 →
        ∃ newId, CreatesFresh baseDir request
          (EntityHandler.handleAll baseDir before start).2 newId := by
  intro always
  have succeed : CallsSucceed
      (EntityHandler.handleRequest "/data".toList (itemMessage "POST".toList "b".toList none))
      (EntityHandler.handleAll "/data".toList
        [itemMessage "PUT".toList "a".toList (some largestName)]
        (emptyDisk "data".toList)).2 := by decide +kernel
  have stored : (EntityHandler.handleAll "/data".toList
      [itemMessage "PUT".toList "a".toList (some largestName)]
      (emptyDisk "data".toList)).2.tree.lookup
        ["data".toList, "x".toList, "2147483647".toList] = some (some "a".toList) := by
    decide +kernel
  have created := always "/data".toList _ empty_disk_base _ _ (by simp [itemMessage]) rfl succeed
  have wellFormed := @reached_well_formed "/data".toList _ empty_disk_base
    [itemMessage "PUT".toList "a".toList (some largestName)]
  have free := (post_fresh wellFormed rfl succeed).mp created
  exact free.noLargest (by decide +kernel) largestName ⟨_, stored⟩ (by decide +kernel)

end RestfulWebserver.Entity
