import Mathlib.Data.List.Lex
import Mathlib.Order.Lattice

/-!
# Ordered maps

`std::map`: one value for each key, kept and iterated in increasing key order.
The order is part of the type, so two maps with the same entries are equal and
no operation can store a key twice.
-/

namespace RestfulWebserver.Library

structure OrderedMap (Key Value : Type) [LinearOrder Key] where
  entries : List (Key × Value)
  increasing : entries.Pairwise fun earlier later => earlier.1 < later.1

namespace OrderedMap

variable {Key Value : Type} [LinearOrder Key]

def empty : OrderedMap Key Value := ⟨[], List.Pairwise.nil⟩

def find? (map : OrderedMap Key Value) (key : Key) : Option Value :=
  (map.entries.find? fun entry => entry.1 = key).map Prod.snd

/-- `map.count(key) != 0`. -/
def contains (map : OrderedMap Key Value) (key : Key) : Bool := (map.find? key).isSome

def assignEntries (key : Key) (value : Value) : List (Key × Value) → List (Key × Value)
  | [] => [(key, value)]
  | entry :: rest =>
      if key < entry.1 then (key, value) :: entry :: rest
      else if key = entry.1 then (key, value) :: rest
      else entry :: assignEntries key value rest

theorem mem_assign_entries {key : Key} {value : Value} {entries : List (Key × Value)}
    {entry : Key × Value} (member : entry ∈ assignEntries key value entries) :
    entry = (key, value) ∨ entry ∈ entries := by
  induction entries with
  | nil => exact Or.inl (by simpa [assignEntries] using member)
  | cons head rest ih =>
      simp only [assignEntries] at member
      split_ifs at member with before same
      · simpa using member
      · rcases List.mem_cons.mp member with first | later
        · exact Or.inl first
        · exact Or.inr (List.mem_cons_of_mem _ later)
      · rcases List.mem_cons.mp member with rfl | later
        · exact Or.inr List.mem_cons_self
        · rcases ih later with new | old
          · exact Or.inl new
          · exact Or.inr (List.mem_cons_of_mem _ old)

theorem assign_entries_increasing (key : Key) (value : Value) (entries : List (Key × Value))
    (increasing : entries.Pairwise fun earlier later => earlier.1 < later.1) :
    (assignEntries key value entries).Pairwise fun earlier later => earlier.1 < later.1 := by
  induction entries with
  | nil => simp [assignEntries]
  | cons head rest ih =>
      obtain ⟨below, tail⟩ := List.pairwise_cons.mp increasing
      simp only [assignEntries]
      split_ifs with before same
      · refine List.pairwise_cons.mpr ⟨?_, increasing⟩
        intro entry member
        rcases List.mem_cons.mp member with rfl | later
        · exact before
        · exact lt_trans before (below entry later)
      · refine List.pairwise_cons.mpr ⟨?_, tail⟩
        intro entry member
        rw [same]
        exact below entry member
      · refine List.pairwise_cons.mpr ⟨?_, ih tail⟩
        intro entry member
        rcases mem_assign_entries member with rfl | old
        · exact lt_of_le_of_ne (not_lt.mp before) (fun equal => same equal.symm)
        · exact below entry old

def assign (map : OrderedMap Key Value) (key : Key) (value : Value) : OrderedMap Key Value :=
  ⟨assignEntries key value map.entries,
    assign_entries_increasing key value map.entries map.increasing⟩

/-- `map.insert({key, value})` and `map.emplace(key, value)`: an existing entry wins. -/
def insert (map : OrderedMap Key Value) (key : Key) (value : Value) : OrderedMap Key Value :=
  if map.contains key then map else map.assign key value

/-- `map.erase(key)`. -/
def erase (map : OrderedMap Key Value) (key : Key) : OrderedMap Key Value :=
  ⟨map.entries.filter fun entry => entry.1 ≠ key, map.increasing.filter _⟩

@[simp] theorem find_empty (key : Key) : (empty : OrderedMap Key Value).find? key = none := rfl

private theorem find_assign_entries (key other : Key) (value : Value)
    (entries : List (Key × Value)) :
    (assignEntries key value entries).find? (fun entry => entry.1 = other) =
      if key = other then some (key, value)
      else entries.find? fun entry => entry.1 = other := by
  induction entries with
  | nil =>
      by_cases hit : key = other <;> simp [assignEntries, hit]
  | cons head rest ih =>
      by_cases hit : key = other
      · subst hit
        simp only [assignEntries, if_true] at ih ⊢
        split_ifs with before same
        · simp
        · simp
        · have differs : ¬ head.1 = key := fun equal => same equal.symm
          simp only [List.find?_cons, differs, decide_false]
          exact ih
      · simp only [assignEntries, if_neg hit] at ih ⊢
        split_ifs with before same
        · simp [List.find?_cons, hit]
        · have differs : ¬ head.1 = other := by rwa [← same]
          simp [hit, differs]
        · simp only [List.find?_cons, ih]

theorem find_assign (map : OrderedMap Key Value) (key other : Key) (value : Value) :
    (map.assign key value).find? other = if key = other then some value else map.find? other := by
  simp only [find?, assign, find_assign_entries]
  split_ifs <;> rfl

@[simp] theorem find_assign_self (map : OrderedMap Key Value) (key : Key) (value : Value) :
    (map.assign key value).find? key = some value := by
  rw [find_assign, if_pos rfl]

theorem find_assign_other (map : OrderedMap Key Value) {key other : Key} (value : Value)
    (differs : key ≠ other) : (map.assign key value).find? other = map.find? other := by
  rw [find_assign, if_neg differs]

theorem find_erase (map : OrderedMap Key Value) (key other : Key) :
    (map.erase key).find? other = if key = other then none else map.find? other := by
  simp only [find?, erase, List.find?_filter]
  by_cases hit : key = other
  · subst hit
    simp
  · rw [if_neg hit]
    apply congrArg (Option.map Prod.snd)
    apply congrArg (fun accepts => List.find? accepts map.entries)
    funext entry
    by_cases same : entry.1 = other
    · simp [same, Ne.symm hit]
    · simp [same]

@[simp] theorem find_erase_self (map : OrderedMap Key Value) (key : Key) :
    (map.erase key).find? key = none := by
  rw [find_erase, if_pos rfl]

theorem entries_under (map : OrderedMap Key Value) (key : Key) :
    (map.entries.filterMap fun entry => if entry.1 = key then some entry.2 else none) =
      (map.find? key).toList := by
  obtain ⟨entries, increasing⟩ := map
  simp only [find?]
  induction entries with
  | nil => rfl
  | cons entry rest ih =>
      obtain ⟨before, increasingRest⟩ := List.pairwise_cons.mp increasing
      by_cases here : entry.1 = key
      · have later : ∀ other ∈ rest, (if other.1 = key then some other.2 else none) = none := by
          intro other member
          rw [if_neg]
          exact here ▸ (before other member).ne'
        simp [here, List.filterMap_eq_nil_iff.mpr later]
      · simp [here, ih increasingRest]

theorem contains_iff (map : OrderedMap Key Value) (key : Key) :
    map.contains key = true ↔ ∃ value, map.find? key = some value := by
  simp only [contains, Option.isSome_iff_exists]

theorem find_none_of_not_contains {map : OrderedMap Key Value} {key : Key}
    (absent : map.contains key = false) : map.find? key = none := by
  simpa [contains] using absent

theorem find_insert (map : OrderedMap Key Value) (key other : Key) (value : Value) :
    (map.insert key value).find? other =
      if key = other then some ((map.find? key).getD value) else map.find? other := by
  simp only [insert]
  by_cases present : map.contains key
  · rw [if_pos present]
    obtain ⟨stored, found⟩ := (contains_iff map key).mp present
    by_cases hit : key = other
    · subst hit
      simp [found]
    · rw [if_neg hit]
  · rw [if_neg present, find_assign]
    simp [find_none_of_not_contains (by simpa using present)]

theorem find_insert_absent {map : OrderedMap Key Value} {key : Key}
    (absent : map.contains key = false) (other : Key) (value : Value) :
    (map.insert key value).find? other = if key = other then some value else map.find? other := by
  rw [find_insert, find_none_of_not_contains absent]
  rfl

theorem mem_entries_iff (map : OrderedMap Key Value) (key : Key) (value : Value) :
    (key, value) ∈ map.entries ↔ map.find? key = some value := by
  obtain ⟨entries, increasing⟩ := map
  simp only [find?]
  induction entries with
  | nil => simp
  | cons entry rest ih =>
      obtain ⟨before, increasingRest⟩ := List.pairwise_cons.mp increasing
      by_cases here : entry.1 = key
      · have later : ∀ other, (key, other) ∉ rest := by
          intro other member
          exact absurd (before _ member) (by simp [here])
        obtain ⟨found, stored⟩ := entry
        simp only at here
        simp [here, later, eq_comm]
      · have differs : (key, value) ≠ entry := fun same => here (by rw [← same])
        simp only [List.mem_cons, differs, false_or, List.find?_cons, here, decide_false]
        exact ih increasingRest

theorem keys_nodup (map : OrderedMap Key Value) : (map.entries.map Prod.fst).Nodup := by
  rw [List.Nodup, List.pairwise_map]
  exact map.increasing.imp fun smaller => ne_of_lt smaller

theorem mem_keys_iff (map : OrderedMap Key Value) (key : Key) :
    key ∈ map.entries.map Prod.fst ↔ map.contains key = true := by
  rw [contains_iff]
  simp only [← mem_entries_iff, List.mem_map]
  constructor
  · intro ⟨(same, value), member, isKey⟩
    exact ⟨value, isKey ▸ member⟩
  · intro ⟨value, member⟩
    exact ⟨(key, value), member, rfl⟩

theorem keys_eq_of_contains {Other : Type} {one : OrderedMap Key Value}
    {other : OrderedMap Key Other} (same : ∀ key, one.contains key = other.contains key) :
    one.entries.map Prod.fst = other.entries.map Prod.fst := by
  have members : ∀ key, key ∈ one.entries.map Prod.fst ↔ key ∈ other.entries.map Prod.fst := by
    intro key
    rw [mem_keys_iff, mem_keys_iff, same]
  have perm := (List.perm_ext_iff_of_nodup one.keys_nodup other.keys_nodup).mpr members
  have rising : (one.entries.map Prod.fst).Pairwise (· < ·) := List.pairwise_map.mpr one.increasing
  have risingOther : (other.entries.map Prod.fst).Pairwise (· < ·) :=
    List.pairwise_map.mpr other.increasing
  exact perm.eq_of_pairwise (fun _ _ _ _ below above => absurd below (lt_asymm above)) rising
    risingOther

/-- Of several entries inserted under a key the first one stays. -/
theorem find_insert_all (pairs : List (Key × Value)) (map : OrderedMap Key Value) (key : Key) :
    (pairs.foldl (fun built pair => built.insert pair.1 pair.2) map).find? key =
      (map.find? key).or ((pairs.find? fun pair => pair.1 = key).map Prod.snd) := by
  induction pairs generalizing map with
  | nil => simp
  | cons pair rest ih =>
      rw [List.foldl_cons, ih, find_insert]
      by_cases here : pair.1 = key
      · subst here
        cases map.find? pair.1 <;> simp
      · simp [here]

theorem eq_of_find {one other : OrderedMap Key Value}
    (same : ∀ key, one.find? key = other.find? key) : one = other := by
  have nodup : ∀ map : OrderedMap Key Value, map.entries.Nodup := fun map =>
    map.increasing.imp fun below same => absurd (same ▸ below) (lt_irrefl _)
  have members : ∀ entry, entry ∈ one.entries ↔ entry ∈ other.entries := by
    intro entry
    rw [mem_entries_iff, mem_entries_iff, same]
  have perm := (List.perm_ext_iff_of_nodup (nodup one) (nodup other)).mpr members
  have entries : one.entries = other.entries :=
    perm.eq_of_pairwise (fun _ _ _ _ below above => absurd below (lt_asymm above))
      one.increasing other.increasing
  obtain ⟨entries, increasing⟩ := one
  cases entries
  rfl

theorem find_assign_all {pairs : List (Key × Value)} (nodup : (pairs.map Prod.fst).Nodup)
    (map : OrderedMap Key Value) (key : Key) :
    (pairs.foldl (fun built pair => built.assign pair.1 pair.2) map).find? key =
      ((pairs.find? fun pair => pair.1 = key).map Prod.snd).or (map.find? key) := by
  induction pairs generalizing map with
  | nil => simp
  | cons pair rest ih =>
      obtain ⟨fresh, nodupRest⟩ := List.nodup_cons.mp nodup
      rw [List.foldl_cons, ih nodupRest, find_assign, List.find?_cons]
      by_cases here : pair.1 = key
      · have absent : rest.find? (fun other => other.1 = key) = none := by
          rw [List.find?_eq_none]
          intro other member
          simp only [decide_eq_true_eq]
          intro same
          exact fresh (List.mem_map.mpr ⟨other, member, same.trans here.symm⟩)
        simp [here, absent]
      · simp [here]

theorem fold_assign_entries (map : OrderedMap Key Value) :
    map.entries.foldl (fun built entry => built.assign entry.1 entry.2) empty = map := by
  apply eq_of_find
  intro key
  rw [find_assign_all map.keys_nodup, find_empty, Option.or_none]
  rfl

/-- What is searched in all the lists of a map is in the list under one key. -/
theorem find_in_lists {Item : Type} (map : OrderedMap Key (List Item)) (key : Key)
    (accepts : Item → Bool)
    (others : ∀ entry ∈ map.entries, entry.1 ≠ key → ∀ item ∈ entry.2, accepts item = false) :
    (map.entries.flatMap Prod.snd).find? accepts = ((map.find? key).getD []).find? accepts := by
  obtain ⟨entries, increasing⟩ := map
  simp only [find?] at *
  induction entries with
  | nil => rfl
  | cons entry rest ih =>
      obtain ⟨before, increasingRest⟩ := List.pairwise_cons.mp increasing
      obtain ⟨here, later⟩ := List.forall_mem_cons.mp others
      rw [List.flatMap_cons, List.find?_append, ih increasingRest later, List.find?_cons]
      by_cases isKey : entry.1 = key
      · have absent : rest.find? (fun entry => entry.1 = key) = none := by
          rw [List.find?_eq_none]
          intro other member
          simpa [← isKey] using (before other member).ne'
        simp [isKey, absent]
      · have none : entry.2.find? accepts = none := by
          rw [List.find?_eq_none]
          intro item member
          simp [here isKey item member]
        simp [isKey, none]

end OrderedMap

end RestfulWebserver.Library
