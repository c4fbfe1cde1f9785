import RestfulWebserver.Entity.Mock
import RestfulWebserver.Entity.Refinement

/-!
# The ids that come to be stored

Only `write` stores anything, under an id that `check_id` let pass. A property of
the ids in `PUT` requests is therefore one of all ids that are stored, where the
numbers have it, in either file system.
-/

namespace RestfulWebserver.Entity

open RestfulWebserver.Library RestfulWebserver.Http Program

/-! ## The handler over either file system -/

structure Filesystem (M : Type → Type) where
  existsAt : EntityPayload → Bytes → M Bool
  read : EntityPayload → Bytes → M Bytes
  write : EntityPayload → Bytes → Bytes → M Unit
  remove : EntityPayload → Bytes → M Unit
  listIds : EntityPayload → M (List Bytes)
  nextId : EntityPayload → M Bytes

def realFilesystem : Filesystem FileM where
  existsAt := RealFilesystem.existsAt
  read := RealFilesystem.read
  write := RealFilesystem.write
  remove := RealFilesystem.remove
  listIds := RealFilesystem.listIds
  nextId := RealFilesystem.nextId

def mockFilesystem : Filesystem MockM where
  existsAt := MockFilesystem.existsAt
  read := MockFilesystem.read
  write := MockFilesystem.write
  remove := MockFilesystem.remove
  listIds := MockFilesystem.listIds
  nextId := MockFilesystem.nextId

namespace EntityHandler

def serveOn {M : Type → Type} [Monad M] [MonadExcept Thrown M] (filesystem : Filesystem M)
    (baseDir : Bytes) (request : HttpRequest) : M HttpResponse := do
  let (name, id) := entityParts request.path
  let entity : EntityPayload := ⟨baseDir, name⟩
  if request.method = "POST".toList then
    let newId ← filesystem.nextId entity
    filesystem.write entity newId request.body
    pure (idResponse newId)
  else if request.method = "GET".toList then
    if id = [] then
      let ids ← filesystem.listIds entity
      pure (jsonResponse (listing ids))
    else
      let contents ← filesystem.read entity id
      pure (jsonResponse contents)
  else if request.method = "PUT".toList then
    if id = [] then throw (.other "PUT request must specify an ID.".toList)
    else
      filesystem.write entity id request.body
      pure (idResponse id)
  else if request.method = "DELETE".toList then
    if id = [] then throw (.other "DELETE request must specify an ID.".toList)
    else
      filesystem.remove entity id
      pure (jsonResponse "\x7b\"status\": \"deleted\"\x7d".toList)
  else pure (bareResponse .badRequest "Unsupported HTTP method.".toList)

theorem serve_on_real (baseDir : Bytes) (request : HttpRequest) :
    serveOn realFilesystem baseDir request = serve baseDir request := rfl

/-- `handle_request` after `set_filesystem`: no root is made. -/
def handleMock (baseDir : Bytes) (request : HttpRequest) (data : MockData) :
    HttpResponse × MockData :=
  let (outcome, next) := (serveOn mockFilesystem baseDir request).run.run data
  (answer outcome, next)

def mockAll (baseDir : Bytes) : List HttpRequest → MockData → List HttpResponse × MockData
  | [], data => ([], data)
  | request :: later, data =>
      let (response, next) := handleMock baseDir request data
      let (responses, last) := mockAll baseDir later next
      (response :: responses, last)

end EntityHandler

/-! ## Which ids a request may store -/

def PutsGood (good : Bytes → Prop) (request : HttpRequest) : Prop :=
  request.method = "PUT".toList → StartsPositive (entityParts request.path).2 →
    good (entityParts request.path).2

/-- What is said of the ids is also said of the numbers that `POST` takes, and of
the name of the file that an id with slashes leads to; it rules out a null byte. -/
structure SaidOfNames (good : Bytes → Prop) : Prop where
  noNull : ∀ id, good id → '\x00' ∉ id
  numbers : ∀ id, PositiveNumeral id → good id
  names : ∀ id, StartsPositive id → good id →
    ∃ place name, components id = place ++ [name] ∧ good name

theorem valid_id_iff (id : Bytes) : ValidId id ↔ StartsPositive id := stoi_positive_iff id

theorem positive_of_digits {id : Bytes} (digits : ∀ byte ∈ id, byte.isDigit = true)
    (starts : StartsPositive id) : PositiveNumeral id := by
  obtain ⟨value, read, positive⟩ := (stoi_positive_iff id).mpr starts
  have nonempty : id ≠ [] := by
    rintro rfl
    cases read
  have same := stoi_digits_value nonempty digits read
  have bounded := stoi_bounded read
  exact ⟨digits, by omega, by omega⟩

theorem minus_not_positive (rest : Bytes) : ¬ StartsPositive ('-' :: rest) := by
  rintro ⟨blanks, sign, digits, behind, split, spaces, plus, _, positive⟩
  cases blanks with
  | cons blank blanks =>
      cases split
      exact absurd (spaces '-' List.mem_cons_self) (by decide)
  | nil =>
      rcases plus with rfl | rfl
      · cases digits with
        | nil => exact positive.nonempty rfl
        | cons digit digits =>
            cases split
            exact absurd (positive.digits '-' List.mem_cons_self) (by decide)
      · cases split

/-- A new id is refused, or it is a number and nothing else. -/
theorem new_id_positive {value : Int} (starts : StartsPositive (RealFilesystem.intToString value)) :
    PositiveNumeral (RealFilesystem.intToString value) := by
  apply positive_of_digits _ starts
  unfold RealFilesystem.intToString at starts ⊢
  split_ifs at starts ⊢
  · exact absurd starts (minus_not_positive _)
  · intro byte member
    exact Nat.isDigit_of_mem_toDigits (by decide) (by decide) member

section Stored

variable {good : Bytes → Prop} {baseDir : Bytes} {request : HttpRequest}

/-! ## On a disk -/

def WritesGood (good : Bytes → Prop) : FileCall → Prop
  | .writeFile path _ => ∃ place name, components path = place ++ [name] ∧ good name
  | _ => True

theorem write_good {entity : EntityPayload} {id data : Bytes} (said : SaidOfNames good)
    (isGood : StartsPositive id → good id) :
    AllCalls (WritesGood good) (RealFilesystem.write entity id data).run := by
  rw [write_calls_iff]
  intro valid
  have starts := (valid_id_iff id).mp valid
  obtain ⟨place, name, named, nameGood⟩ := said.names id starts (isGood starts)
  refine ⟨trivial, components entity.makePath ++ place, name, ?_, nameGood⟩
  rw [EntityPayload.makePathTo, components_join, named, List.append_assoc]
  rfl

theorem serve_good (said : SaidOfNames good) (puts : PutsGood good request) :
    AllCalls (WritesGood good) (EntityHandler.serve baseDir request).run := by
  have listing : ∀ entity : EntityPayload,
      AllCalls (WritesGood good) (RealFilesystem.listIds entity).run := by
    intro entity
    exact list_ids_calls trivial trivial fun _ => trivial
  unfold EntityHandler.serve
  unfold PutsGood at puts
  generalize entityParts request.path = parts at puts ⊢
  rcases parts with ⟨name, id⟩
  simp only at puts ⊢
  split_ifs with post get noId put noId delete noId
  · apply post_calls (listing _)
    intro value
    exact write_good said fun starts => said.numbers _ (new_id_positive starts)
  · exact all_calls_then (listing _) fun ids => trivial
  · exact all_calls_then ((read_calls_iff id).mpr ⟨trivial, trivial⟩) fun contents => trivial
  · exact trivial
  · exact all_calls_then (write_good said (puts put)) fun written => trivial
  · exact trivial
  · exact all_calls_then ((remove_calls_iff id).mpr trivial) fun removed => trivial
  · exact trivial

theorem handle_good (said : SaidOfNames good) (puts : PutsGood good request) :
    AllCalls (WritesGood good) (EntityHandler.handleRequest baseDir request).run := by
  rw [EntityHandler.handleRequest, RealFilesystem.create, all_calls_create_iff]
  refine ⟨trivial, ?_⟩
  intro created
  have calls := (locked_calls_iff baseDir request).mpr (serve_good said puts)
  exact all_calls_bind calls fun response => trivial

def FilesGood (good : Bytes → Prop) (baseDir : Bytes) (disk : Disk) : Prop :=
  ∀ below name contents, disk.tree.lookup (Tree.placeAt baseDir ++ (below ++ [name])) =
    some (some contents) → good name

def KeepsFiles {Result : Type} (good : Bytes → Prop) (baseDir : Bytes) (program : FileM Result) :
    Prop :=
  ∀ disk : Disk, disk.tree.WellFormed → FilesGood good baseDir disk →
    FilesGood good baseDir (Disk.runOn program disk).2

def NoWrite : FileCall → Prop
  | .writeFile _ _ => False
  | _ => True

theorem perform_same_tree (call : FileCall) (disk : Disk) :
    (Disk.perform call disk).2.tree = (Tree.perform call disk.tree).2 := by
  cases call with
  | directoryEntries path =>
      unfold Tree.perform
      simp only
      split <;> rfl
  | _ => rfl

theorem perform_good {call : FileCall} {disk : Disk} (noWrite : NoWrite call)
    (files : FilesGood good baseDir disk) : FilesGood good baseDir (Disk.perform call disk).2 := by
  intro below name contents found
  rw [perform_same_tree] at found
  rcases Tree.perform_file found with before | ⟨path, data, rfl, _⟩
  · exact files below name contents before
  · exact absurd noWrite id

section Keeping

variable {Result Other : Type}

theorem keeps_files_no_write {program : FileM Result} (calls : AllCalls NoWrite program.run) :
    KeepsFiles good baseDir program :=
  fun _ _ files => exec_keeps (fun _ _ => perform_good) calls files

theorem keeps_files_throw (thrown : Thrown) :
    KeepsFiles good baseDir (throw thrown : FileM Result) := fun _ _ files => files

theorem keeps_files_bind {program : FileM Result} {onward : Result → FileM Other}
    (first : KeepsFiles good baseDir program)
    (later : ∀ result, KeepsFiles good baseDir (onward result)) :
    KeepsFiles good baseDir (program >>= onward) := by
  intro disk wellFormed files
  cases ran : Disk.runOn program disk with
  | mk outcome next =>
      have kept := first disk wellFormed files
      rw [ran] at kept
      cases outcome with
      | error thrown =>
          rw [Disk.run_bind_error ran]
          exact kept
      | ok result =>
          rw [Disk.run_bind_ok ran]
          exact later result next (Disk.run_well_formed wellFormed ran) kept

end Keeping

/-- In a directory the last name of an id is that of the file it leads to. -/
theorem new_file_name {entity : EntityPayload} {id name : Bytes} {place here : List Bytes}
    {tree : Tree} (wellFormed : tree.WellFormed)
    (directory : tree.stat entity.makePath = .ok none) (idNoNull : '\x00' ∉ id)
    (named : components id = place ++ [name])
    (resolved : tree.resolve (entity.makePathTo id) = .ok here)
    (free : tree.lookup here ≠ some none) : ∃ front, here = front ++ [name] := by
  have noNull : '\x00' ∉ entity.makePath := by
    intro null
    have cut := @Disk.stat_to_cut entity tree null id
    rw [directory, Tree.stat_ok_iff] at cut
    rw [Tree.resolve_ok resolved] at free
    exact free cut.2
  obtain ⟨front, last, split, isHere, _⟩ := Tree.resolve_new wellFormed resolved free
  have names : components (cString (entity.makePathTo id)) =
      (components entity.makePath ++ place) ++ [name] := by
    have joined := components_cut_join noNull id
    rw [c_string_whole idNoNull, named, ← List.append_assoc] at joined
    exact joined
  rw [names] at split
  rw [(List.append_singleton_inj.mp split).2]
  exact ⟨_, isHere⟩

theorem write_leaves {entity : EntityPayload} {id data : Bytes} (valid : ValidId id)
    {disk created : Disk}
    (made : Disk.runOn (createDirectories entity.makePath) disk = (.ok (), created)) :
    (Disk.runOn (RealFilesystem.write entity id data) disk).2 =
      (Disk.perform (.writeFile (entity.makePathTo id) data) created).2 := by
  have wrote : Disk.runOn (writeFile (entity.makePathTo id) data) created =
      (.ok (Disk.perform (.writeFile (entity.makePathTo id) data) created).1,
        (Disk.perform (.writeFile (entity.makePathTo id) data) created).2) := rfl
  rw [RealFilesystem.write, check_id_of_valid valid, pure_bind, Disk.run_bind_ok made,
    Disk.run_bind_ok wrote]
  cases (Disk.perform (.writeFile (entity.makePathTo id) data) created).1 <;> rfl

theorem keeps_files_write {entity : EntityPayload} {id : Bytes} (data : Bytes)
    (said : SaidOfNames good) (isGood : StartsPositive id → good id) :
    KeepsFiles good baseDir (RealFilesystem.write entity id data) := by
  intro disk wellFormed files
  by_cases valid : ValidId id
  · have starts := (valid_id_iff id).mp valid
    obtain ⟨place, name, named, nameGood⟩ := said.names id starts (isGood starts)
    cases ran : Disk.runOn (createDirectories entity.makePath) disk with
    | mk outcome created =>
        have createdGood : FilesGood good baseDir created := by
          have kept := @perform_good _ _ (.createDirectories entity.makePath) _ trivial files
          have same : (Disk.perform (.createDirectories entity.makePath) disk).2 = created :=
            congrArg Prod.snd ran
          rwa [same] at kept
        cases outcome with
        | error thrown =>
            rw [RealFilesystem.write, check_id_of_valid valid, pure_bind, Disk.run_bind_error ran]
            exact createdGood
        | ok done =>
            obtain ⟨made, isCreated⟩ := Disk.create_ran ran
            have directory : created.tree.stat entity.makePath = .ok none := by
              rw [isCreated]
              exact Tree.create_stat made
            intro below other contents found
            rw [write_leaves valid ran, perform_same_tree] at found
            rcases Tree.perform_file found with before | ⟨path, bytes, same, resolved, free⟩
            · exact createdGood below other contents before
            · cases same
              obtain ⟨front, here⟩ := new_file_name (Disk.run_well_formed wellFormed ran)
                directory (said.noNull id (isGood starts)) named resolved free
              rw [← List.append_assoc] at here
              rw [(List.append_singleton_inj.mp here).2]
              exact nameGood
  · rw [Disk.run_write_invalid data valid]
    exact files

theorem handle_keeps (said : SaidOfNames good) (puts : PutsGood good request) :
    KeepsFiles good baseDir (EntityHandler.handleRequest baseDir request) := by
  have listing : ∀ entity : EntityPayload, AllCalls NoWrite (RealFilesystem.listIds entity).run := by
    intro entity
    exact list_ids_calls trivial trivial fun _ => trivial
  have serving : KeepsFiles good baseDir (EntityHandler.serve baseDir request) := by
    unfold EntityHandler.serve
    unfold PutsGood at puts
    generalize entityParts request.path = parts at puts ⊢
    rcases parts with ⟨name, id⟩
    simp only at puts ⊢
    split_ifs with post get noId put noId delete noId
    · simp only [RealFilesystem.nextId, bind_assoc, pure_bind]
      refine keeps_files_bind (keeps_files_no_write (listing _)) fun ids => ?_
      refine keeps_files_bind ?_ fun written => keeps_files_no_write trivial
      exact keeps_files_write _ said fun starts => said.numbers _ (new_id_positive starts)
    · exact keeps_files_no_write (all_calls_then (listing _) fun ids => trivial)
    · exact keeps_files_no_write
        (all_calls_then ((read_calls_iff id).mpr ⟨trivial, trivial⟩) fun contents => trivial)
    · exact keeps_files_throw _
    · exact keeps_files_bind (keeps_files_write _ said (puts put)) fun written =>
        keeps_files_no_write trivial
    · exact keeps_files_throw _
    · exact keeps_files_no_write
        (all_calls_then ((remove_calls_iff id).mpr trivial) fun removed => trivial)
    · exact keeps_files_no_write trivial
  rw [EntityHandler.handleRequest, RealFilesystem.create]
  refine keeps_files_bind ?_ fun created => ?_
  · exact keeps_files_no_write ⟨trivial, fun _ => trivial⟩
  · intro disk wellFormed files
    have kept := serving disk wellFormed files
    have answered := run_locked (Prod.ext rfl rfl :
      Disk.runOn (EntityHandler.serve baseDir request) disk =
        ((Disk.runOn (EntityHandler.serve baseDir request) disk).1, _))
    rw [answered]
    exact kept

theorem empty_files_good {disk : Disk} (emptyBase : EmptyBase baseDir disk.tree) :
    FilesGood good baseDir disk := by
  intro below name contents found
  exact absurd found (empty_no_file emptyBase _ contents)

theorem stored_good {disk : Disk} (said : SaidOfNames good)
    (emptyBase : EmptyBase baseDir disk.tree) {requests : List HttpRequest}
    (puts : ∀ request ∈ requests, PutsGood good request) :
    FilesGood good baseDir (EntityHandler.handleAll baseDir requests disk).2 := by
  have kept : ∀ disk : Disk, disk.tree.WellFormed → FilesGood good baseDir disk →
      FilesGood good baseDir (EntityHandler.handleAll baseDir requests disk).2 := by
    induction requests with
    | nil => exact fun _ _ files => files
    | cons request later ih =>
        obtain ⟨first, rest⟩ := List.forall_mem_cons.mp puts
        intro disk wellFormed files
        have nextWell := Disk.run_well_formed wellFormed
          (Prod.ext rfl rfl : Disk.runOn (EntityHandler.handleRequest baseDir request) disk =
            ((Disk.runOn (EntityHandler.handleRequest baseDir request) disk).1, _))
        exact ih rest _ nextWell (handle_keeps said first disk wellFormed files)
  exact kept disk emptyBase.wellFormed (empty_files_good emptyBase)

end Stored

/-! ## In the mock -/

namespace MockFilesystem

section Keeping

variable {invariant : MockData → Prop} {Result Other : Type}

def Keeps (invariant : MockData → Prop) (program : MockM Result) : Prop :=
  ∀ data, invariant data → invariant (program.run.run data).2

theorem keeps_pure (result : Result) : Keeps invariant (pure result : MockM Result) :=
  fun _ holds => holds

theorem keeps_throw (thrown : Thrown) : Keeps invariant (throw thrown : MockM Result) :=
  fun _ holds => holds

theorem keeps_bind {program : MockM Result} {onward : Result → MockM Other}
    (first : Keeps invariant program) (later : ∀ result, Keeps invariant (onward result)) :
    Keeps invariant (program >>= onward) := by
  intro data holds
  cases ran : program.run.run data with
  | mk outcome next =>
      have kept := first data holds
      rw [ran] at kept
      cases outcome with
      | error thrown =>
          rw [bind_error ran]
          exact kept
      | ok result =>
          rw [bind_ok ran]
          exact later result next kept

theorem keeps_exists (entity : EntityPayload) (id : Bytes) :
    Keeps invariant (existsAt entity id) := by
  intro data holds
  rw [run_exists]
  exact holds

theorem keeps_list (entity : EntityPayload) : Keeps invariant (listIds entity) := by
  intro data holds
  rw [run_list]
  exact holds

theorem keeps_read (entity : EntityPayload) (id : Bytes) : Keeps invariant (read entity id) := by
  unfold read
  refine keeps_bind (keeps_exists entity id) ?_
  intro found
  cases found with
  | false => exact keeps_throw _
  | true => exact fun _ holds => holds

end Keeping

variable {good : Bytes → Prop}

def IdsGood (good : Bytes → Prop) (data : MockData) : Prop :=
  ∀ name id contents, (values data name).find? id = some contents → good id

theorem ids_good_assign {data : MockData} (ids : IdsGood good data) (name : Bytes)
    {inner : OrderedMap Bytes Bytes}
    (innerGood : ∀ id contents, inner.find? id = some contents → good id) :
    IdsGood good (data.assign name inner) := by
  intro other id contents found
  by_cases same : name = other
  · subst same
    rw [values, OrderedMap.find_assign_self] at found
    exact innerGood id contents found
  · rw [values, OrderedMap.find_assign_other _ _ same] at found
    exact ids other id contents found

theorem keeps_write (entity : EntityPayload) {id : Bytes} (contents : Bytes)
    (isGood : StartsPositive id → good id) :
    Keeps (IdsGood good) (write entity id contents) := by
  by_cases valid : ValidId id
  · rw [write, check_id_valid valid]
    intro data ids
    apply ids_good_assign ids
    intro other bytes found
    by_cases same : id = other
    · subst same
      exact isGood ((valid_id_iff id).mp valid)
    · rw [OrderedMap.find_assign_other _ _ same] at found
      exact ids _ other bytes found
  · rw [write, check_id_invalid valid]
    intro data ids
    exact ids

theorem keeps_remove (entity : EntityPayload) (id : Bytes) :
    Keeps (IdsGood good) (remove entity id) := by
  unfold remove
  refine keeps_bind (keeps_exists entity id) ?_
  intro found
  cases found with
  | false => exact keeps_throw _
  | true =>
      intro data ids
      apply ids_good_assign ids
      intro other bytes stays
      rw [OrderedMap.find_erase] at stays
      split_ifs at stays
      exact ids _ other bytes stays

end MockFilesystem

section Stored

open MockFilesystem

variable {good : Bytes → Prop} {baseDir : Bytes} {request : HttpRequest}

theorem serve_mock_good (said : SaidOfNames good) (puts : PutsGood good request) :
    Keeps (IdsGood good) (EntityHandler.serveOn mockFilesystem baseDir request) := by
  unfold EntityHandler.serveOn
  unfold PutsGood at puts
  generalize entityParts request.path = parts at puts ⊢
  rcases parts with ⟨name, id⟩
  simp only at puts ⊢
  split_ifs with post get noId put noId delete noId
  · simp only [mockFilesystem, nextId, bind_assoc, pure_bind]
    refine keeps_bind (keeps_list _) ?_
    intro ids
    refine keeps_bind ?_ fun written => keeps_pure _
    exact keeps_write _ _ fun starts => said.numbers _ (new_id_positive starts)
  · exact keeps_bind (keeps_list _) fun ids => keeps_pure _
  · exact keeps_bind (keeps_read _ id) fun contents => keeps_pure _
  · exact keeps_throw _
  · exact keeps_bind (keeps_write _ _ (puts put)) fun written => keeps_pure _
  · exact keeps_throw _
  · exact keeps_bind (keeps_remove _ id) fun removed => keeps_pure _
  · exact keeps_pure _

theorem mock_good {data : MockData} (said : SaidOfNames good) {requests : List HttpRequest}
    (puts : ∀ request ∈ requests, PutsGood good request) (ids : IdsGood good data) :
    IdsGood good (EntityHandler.mockAll baseDir requests data).2 := by
  induction requests generalizing data with
  | nil => exact ids
  | cons request later ih =>
      obtain ⟨first, rest⟩ := List.forall_mem_cons.mp puts
      exact ih rest (serve_mock_good said first data ids)

theorem empty_ids_good : IdsGood good OrderedMap.empty := by
  intro name id contents found
  cases found

end Stored

end RestfulWebserver.Entity
