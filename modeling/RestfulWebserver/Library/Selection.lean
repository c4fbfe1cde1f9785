import Mathlib.Data.List.Induction

/-!
# Selecting the largest

A loop over a list that keeps an item when it is larger than the one kept so far
ends with the first of the largest items it accepts.
-/

namespace RestfulWebserver.Library

variable {Item : Type} (accepts : Item → Bool) (size : Item → Nat)

def keepLarger (best : Option Item) (item : Item) : Option Item :=
  if accepts item && (best.all fun prior => size prior < size item) then some item else best

/-- An accepted item, the accepted ones before it smaller and none behind it larger. -/
def FirstLargest (items : List Item) (item : Item) : Prop :=
  ∃ before after, items = before ++ item :: after ∧ accepts item = true ∧
    (∀ other ∈ before, accepts other = true → size other < size item) ∧
    ∀ other ∈ after, accepts other = true → size other ≤ size item

variable {accepts size}

theorem FirstLargest.mem {items : List Item} {item : Item}
    (first : FirstLargest accepts size items item) : item ∈ items := by
  obtain ⟨before, after, rfl, _⟩ := first
  simp

theorem FirstLargest.accepted {items : List Item} {item : Item}
    (first : FirstLargest accepts size items item) : accepts item = true := by
  obtain ⟨_, _, _, accepted, _⟩ := first
  exact accepted

theorem FirstLargest.largest {items : List Item} {item : Item}
    (first : FirstLargest accepts size items item) {other : Item} (member : other ∈ items)
    (accepted : accepts other = true) : size other ≤ size item := by
  obtain ⟨before, after, rfl, _, smaller, noLarger⟩ := first
  rcases List.mem_append.mp member with earlier | later
  · exact Nat.le_of_lt (smaller other earlier accepted)
  · rcases List.mem_cons.mp later with rfl | later
    · exact Nat.le_refl _
    · exact noLarger other later accepted

theorem FirstLargest.unique {items : List Item} {one other : Item}
    (first : FirstLargest accepts size items one)
    (otherFirst : FirstLargest accepts size items other) : one = other := by
  have bound := first.largest otherFirst.mem otherFirst.accepted
  have otherBound := otherFirst.largest first.mem first.accepted
  obtain ⟨before, after, split, accepted, smaller, _⟩ := first
  obtain ⟨otherBefore, otherAfter, otherSplit, otherAccepted, otherSmaller, _⟩ := otherFirst
  have notBefore : one ∉ otherBefore := fun earlier =>
    absurd (otherSmaller one earlier accepted) (Nat.not_lt.mpr bound)
  have notBeforeOther : other ∉ before := fun earlier =>
    absurd (smaller other earlier otherAccepted) (Nat.not_lt.mpr otherBound)
  rcases List.append_eq_append_iff.mp (split.symm.trans otherSplit) with
    ⟨between, longer, ends⟩ | ⟨between, longer, ends⟩
  · cases between with
    | nil => exact (List.cons.inj ends).1
    | cons first between =>
        have same := (List.cons.inj ends).1
        exact absurd (by simp [longer, same]) notBefore
  · cases between with
    | nil => exact (List.cons.inj ends).1.symm
    | cons first between =>
        have same := (List.cons.inj ends).1
        exact absurd (by simp [longer, same]) notBeforeOther

theorem FirstLargest.snoc {items : List Item} {best item : Item}
    (first : FirstLargest accepts size items best)
    (kept : accepts item = true → size item ≤ size best) :
    FirstLargest accepts size (items ++ [item]) best := by
  obtain ⟨before, after, rfl, accepted, smaller, noLarger⟩ := first
  refine ⟨before, after ++ [item], by simp, accepted, smaller, fun other member => ?_⟩
  rcases List.mem_append.mp member with earlier | last
  · exact noLarger other earlier
  · rw [List.mem_singleton.mp last]
    exact kept

theorem keep_larger_run (items : List Item) :
    (∀ item, items.foldl (keepLarger accepts size) none = some item →
      FirstLargest accepts size items item) ∧
      (items.foldl (keepLarger accepts size) none = none → ∀ item ∈ items, accepts item = false) := by
  induction items using List.reverseRecOn with
  | nil => exact ⟨by simp, by simp⟩
  | append_singleton items item ih =>
      rw [List.foldl_append, List.foldl_cons, List.foldl_nil]
      cases kept : items.foldl (keepLarger accepts size) none with
      | none =>
          have none := ih.2 kept
          cases accepted : accepts item with
          | false =>
              refine ⟨by simp [keepLarger, accepted], fun _ other member => ?_⟩
              rcases List.mem_append.mp member with earlier | last
              · exact none other earlier
              · rw [List.mem_singleton.mp last, accepted]
          | true =>
              refine ⟨fun best chosen => ?_, by simp [keepLarger, accepted]⟩
              have same : item = best := by simpa [keepLarger, accepted] using chosen
              rw [← same]
              exact ⟨items, [], rfl, accepted,
                fun other member isAccepted => absurd isAccepted (by simp [none other member]),
                by simp⟩
      | some prior =>
          have first := ih.1 prior kept
          rw [keepLarger]
          split_ifs with larger
          · obtain ⟨accepted, longer⟩ := Bool.and_eq_true_iff.mp larger
            have longer : size prior < size item := by simpa using longer
            refine ⟨fun best chosen => ?_, by simp⟩
            cases chosen
            exact ⟨items, [], rfl, accepted, fun other member isAccepted =>
              Nat.lt_of_le_of_lt (first.largest member isAccepted) longer, by simp⟩
          · refine ⟨fun best chosen => ?_, by simp⟩
            cases chosen
            refine first.snoc fun accepted => Nat.not_lt.mp fun longer => larger ?_
            simp [accepted, longer]

theorem keep_larger_eq_some (items : List Item) (item : Item) :
    items.foldl (keepLarger accepts size) none = some item ↔
      FirstLargest accepts size items item := by
  refine ⟨(keep_larger_run items).1 item, fun first => ?_⟩
  cases kept : items.foldl (keepLarger accepts size) none with
  | none =>
      have rejected := (keep_larger_run items).2 kept item first.mem
      exact absurd first.accepted (by simp [rejected])
  | some best => rw [((keep_larger_run items).1 best kept).unique first]

theorem keep_larger_eq_none (items : List Item) :
    items.foldl (keepLarger accepts size) none = none ↔ ∀ item ∈ items, accepts item = false := by
  refine ⟨(keep_larger_run items).2, fun rejected => ?_⟩
  cases kept : items.foldl (keepLarger accepts size) none with
  | none => rfl
  | some best =>
      have first := (keep_larger_run items).1 best kept
      exact absurd first.accepted (by simp [rejected best first.mem])

end RestfulWebserver.Library
