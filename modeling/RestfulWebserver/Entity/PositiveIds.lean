import RestfulWebserver.Entity.StoredIds

/-!
# Positive integers as ids

`std::stoi` reads a number at the front of an id and leaves what follows. What is
behind a positive number, or before it as blanks or a plus, becomes part of an id
that is stored.
-/

namespace RestfulWebserver.Entity

open RestfulWebserver.Library RestfulWebserver.Http Program

theorem numeral_component {id : Bytes} (numeral : PositiveNumeral id) : components id = [id] := by
  apply components_single numeral.nonempty
  · intro member
    exact absurd (numeral.digits '/' member) (by decide)
  · rintro rfl
    exact absurd (numeral.digits '.' List.mem_cons_self) (by decide)

theorem positive_said : SaidOfNames PositiveNumeral where
  noNull _ numeral member := absurd (numeral.digits _ member) (by decide)
  numbers _ numeral := numeral
  names id _ numeral := ⟨[], id, numeral_component numeral, numeral⟩

section Refused

open Disk

theorem write_accepted {entity : EntityPayload} {id data : Bytes} {disk : Disk}
    (valid : ValidId id) :
    (runOn (RealFilesystem.write entity id data) disk).1 ≠ .error (invalidId id) := by
  rw [RealFilesystem.write, check_id_of_valid valid, pure_bind]
  cases made : runOn (createDirectories entity.makePath) disk with
  | mk outcome created =>
      cases outcome with
      | error thrown =>
          rw [run_bind_error made]
          intro same
          cases same
          rw [run_create] at made
          cases first : (disk.tree.createDirectories entity.makePath).1 with
          | ok there =>
              rw [first] at made
              cases made
          | error what =>
              rw [first] at made
              cases made
      | ok there =>
          have written : runOn (writeFile (entity.makePathTo id) data) created =
              (.ok (perform (.writeFile (entity.makePathTo id) data) created).1,
                (perform (.writeFile (entity.makePathTo id) data) created).2) := rfl
          rw [run_bind_ok made, run_bind_ok written]
          intro same
          cases isOpen : (perform (.writeFile (entity.makePathTo id) data) created).1 with
          | false =>
              rw [isOpen] at same
              cases same
          | true =>
              rw [isOpen] at same
              cases same

/-- `write` throws `invalid_id_exception` at exactly the ids that start with no
positive number. -/
theorem write_refused_iff (entity : EntityPayload) (id data : Bytes) (disk : Disk) :
    runOn (RealFilesystem.write entity id data) disk = (.error (invalidId id), disk) ↔
      ¬ StartsPositive id := by
  rw [← valid_id_iff]
  constructor
  · intro refused valid
    exact write_accepted valid (congrArg Prod.fst refused)
  · intro invalid
    exact run_write_invalid data invalid

theorem mock_write_refused_iff (entity : EntityPayload) (id contents : Bytes) (data : MockData) :
    (MockFilesystem.write entity id contents).run.run data = (.error (invalidId id), data) ↔
      ¬ StartsPositive id := by
  rw [← valid_id_iff]
  constructor
  · intro refused valid
    rw [MockFilesystem.write, MockFilesystem.check_id_valid valid] at refused
    cases refused
  · intro invalid
    rw [MockFilesystem.write, MockFilesystem.check_id_invalid invalid]
    rfl

end Refused

/-- Where every id of a `PUT` is either refused or a positive numeral from end to end, only
such numerals are ever stored. What does not start with one is refused in every state. -/
theorem positive_ids_stored (baseDir : Bytes) (disk : Disk)
    (emptyBase : EmptyBase baseDir disk.tree) (requests : List HttpRequest)
    (whole : ∀ request ∈ requests, PutsGood PositiveNumeral request) :
    (∀ request ∈ requests, AllCalls (WritesGood PositiveNumeral)
        (EntityHandler.handleRequest baseDir request).run) ∧
      FilesGood PositiveNumeral baseDir
        (EntityHandler.handleAll baseDir requests disk).2 ∧
      MockFilesystem.IdsGood PositiveNumeral
        (EntityHandler.mockAll baseDir requests OrderedMap.empty).2 ∧
      ∀ (entity : EntityPayload) (id data : Bytes),
        (Disk.runOn (RealFilesystem.write entity id data)
            (EntityHandler.handleAll baseDir requests disk).2 =
          (.error (invalidId id), (EntityHandler.handleAll baseDir requests disk).2) ↔
            ¬ StartsPositive id) ∧
        ((MockFilesystem.write entity id data).run.run
            (EntityHandler.mockAll baseDir requests OrderedMap.empty).2 =
          (.error (invalidId id), (EntityHandler.mockAll baseDir requests OrderedMap.empty).2) ↔
            ¬ StartsPositive id) := by
  refine ⟨?_, ?_, ?_, ?_⟩
  · intro request asked
    exact handle_good positive_said (whole request asked)
  · exact stored_good positive_said emptyBase whole
  · exact mock_good positive_said whole empty_ids_good
  · intro entity id data
    exact ⟨write_refused_iff entity id data _, mock_write_refused_iff entity id data _⟩

theorem item_requests_whole :
    ∀ request ∈ itemRequests.map EntityRequest.request, PutsGood PositiveNumeral request := by
  have twelve : PositiveNumeral "12".toList := ⟨forall_of_all (by decide), by decide, by decide⟩
  have refused : ¬ StartsPositive itemName.name := by
    rw [← valid_id_iff]
    rintro ⟨value, read, _⟩
    have unread : stoi itemName.name = .error .invalidArgument := by decide +kernel
    rw [unread] at read
    cases read
  intro request asked
  simp only [itemRequests, List.map_cons, List.map_nil, List.mem_cons, List.not_mem_nil,
    or_false] at asked
  rcases asked with rfl | rfl | rfl | rfl | rfl | rfl
  · exact fun _ _ => twelve
  · exact fun put => absurd put (by decide)
  · exact fun put => absurd put (by decide)
  · exact fun _ starts => absurd starts refused
  · exact fun put => absurd put (by decide)
  · exact fun put => absurd put (by decide)

/-- After a `PUT`, a `POST` and the deletion of the first of them. -/
theorem items_stored :
    (EntityHandler.handleAll "/data".toList (itemRequests.map EntityRequest.request)
        (emptyDisk "data".toList)).2.tree.lookup ["data".toList, "x".toList, "13".toList] =
      some (some "b".toList) ∧ PositiveNumeral "13".toList := by
  have stored : (EntityHandler.handleAll "/data".toList (itemRequests.map EntityRequest.request)
      (emptyDisk "data".toList)).2.tree.lookup ["data".toList, "x".toList, "13".toList] =
        some (some "b".toList) := by decide +kernel
  have run := positive_ids_stored "/data".toList (emptyDisk "data".toList) empty_disk_base
    (itemRequests.map EntityRequest.request) item_requests_whole
  exact ⟨stored, run.2.1 ["x".toList] "13".toList "b".toList stored⟩

def trailingName : FileName := ⟨"12abc".toList, by decide, by decide, by decide, by decide⟩

/-- `PUT /api/x/12abc` is stored under `12abc`. -/
theorem trailing_text_stored :
    ¬ ∀ (baseDir : Bytes) (disk : Disk), EmptyBase baseDir disk.tree →
      ∀ requests : List HttpRequest, FilesGood PositiveNumeral baseDir
        (EntityHandler.handleAll baseDir requests disk).2 := by
  intro always
  have stored : (EntityHandler.handleAll "/data".toList
      [itemMessage "PUT".toList "a".toList (some trailingName)]
      (emptyDisk "data".toList)).2.tree.lookup ["data".toList, "x".toList, "12abc".toList] =
        some (some "a".toList) := by decide +kernel
  have numeral := always "/data".toList (emptyDisk "data".toList) empty_disk_base
    _ ["x".toList] "12abc".toList "a".toList stored
  exact absurd (numeral.digits 'a' (by decide)) (by decide)

end RestfulWebserver.Entity
