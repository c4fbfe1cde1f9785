import RestfulWebserver.Library.Selection
import RestfulWebserver.Session.Routing

/-!
# The longest matching prefix

The loop of `handle_read` keeps the first of the longest keys that match. Two
different keys of one length match the same path only when one of them is the
root, which matches everything.
-/

namespace RestfulWebserver.Session

open RestfulWebserver.Library RestfulWebserver.Http

def rootPrefix : Bytes := "/".toList

/-- A prefix matches along whole segments; the root matches every path. -/
def Matches (path handlerPrefix : Bytes) : Prop :=
  handlerPrefix = rootPrefix ∨ path = handlerPrefix ∨ ∃ rest, path = handlerPrefix ++ '/' :: rest

theorem is_prefix_match_iff (handlerPrefix path : Bytes) :
    isPrefixMatch handlerPrefix path = true ↔ Matches path handlerPrefix := by
  rw [isPrefixMatch, Matches]
  change (if handlerPrefix = rootPrefix then _ else _) = true ↔ _
  split_ifs with isRoot short differs
  · simp [isRoot]
  · refine iff_of_false not_false ?_
    rintro (root | rfl | ⟨rest, rfl⟩)
    · exact isRoot root
    · omega
    · simp only [List.length_append] at short
      omega
  · refine iff_of_false not_false ?_
    rintro (root | rfl | ⟨rest, rfl⟩)
    · exact isRoot root
    · exact differs List.take_length
    · exact differs List.take_left
  · have same : path.take handlerPrefix.length = handlerPrefix := not_not.mp differs
    obtain ⟨rest, rfl⟩ : ∃ rest, path = handlerPrefix ++ rest :=
      ⟨path.drop handlerPrefix.length, by conv_lhs => rw [← List.take_append_drop
        handlerPrefix.length path, same]⟩
    cases rest with
    | nil => simp
    | cons byte rest => simp [isRoot]

def LongestMatch (routes : RoutingMap) (path chosen : Bytes) : Prop :=
  routes.contains chosen = true ∧ Matches path chosen ∧
    ∀ key, routes.contains key = true → Matches path key → key.length ≤ chosen.length

/-- The root and a key of one other byte are both longest matches. -/
def Tied (routes : RoutingMap) (path : Bytes) : Prop :=
  ∃ byte, byte ≠ '/' ∧ LongestMatch routes path rootPrefix ∧ LongestMatch routes path [byte]

def FirstLongest (path : Bytes) (keys : List Bytes) (chosen : Bytes) : Prop :=
  ∃ before after, keys = before ++ chosen :: after ∧ Matches path chosen ∧
    (∀ key ∈ before, Matches path key → key.length < chosen.length) ∧
    ∀ key ∈ after, Matches path key → key.length ≤ chosen.length

theorem first_largest_iff (path : Bytes) (keys : List Bytes) (chosen : Bytes) :
    FirstLargest (fun key => isPrefixMatch key path) List.length keys chosen ↔
      FirstLongest path keys chosen := by
  simp only [FirstLargest, FirstLongest, is_prefix_match_iff]

/-- The loop over the routes is the selecting loop over their keys. -/
theorem longer_match_fold (path : Bytes) (order : List (Bytes × RoutingPayload)) :
    order.foldl (longerMatch path) none =
      (order.map Prod.fst).foldl
        (keepLarger (fun key => isPrefixMatch key path) List.length) none := by
  rw [List.foldl_map]
  rfl

theorem not_root_match {path key : Bytes} (isMatch : Matches path key) (notRoot : key ≠ rootPrefix) :
    path.take key.length = key := by
  rcases isMatch with root | rfl | ⟨rest, rfl⟩
  · exact absurd root notRoot
  · exact List.take_length
  · exact List.take_left

/-- Two matches of one length are the same prefix, or one of them is the root. -/
theorem longest_match_unique {routes : RoutingMap} {path one other : Bytes}
    (longest : LongestMatch routes path one) (otherLongest : LongestMatch routes path other)
    (untied : ¬ Tied routes path) : one = other := by
  have length : one.length = other.length :=
    le_antisymm (otherLongest.2.2 one longest.1 longest.2.1)
      (longest.2.2 other otherLongest.1 otherLongest.2.1)
  have single : ∀ key, LongestMatch routes path rootPrefix → LongestMatch routes path key →
      key.length = rootPrefix.length → key = rootPrefix := by
    intro key root isLongest sameLength
    obtain ⟨byte, rfl⟩ := List.length_eq_one_iff.mp sameLength
    by_contra different
    refine untied ⟨byte, fun isSlash => different (by rw [isSlash]; rfl), root, isLongest⟩
  by_cases isRoot : one = rootPrefix
  · subst isRoot
    exact (single other longest otherLongest length.symm).symm
  · by_cases otherRoot : other = rootPrefix
    · subst otherRoot
      exact single one otherLongest longest length
    · rw [← not_root_match longest.2.1 isRoot, length]
      exact not_root_match otherLongest.2.1 otherRoot

section Orders

variable {routes : RoutingMap} {order : List (Bytes × RoutingPayload)}

theorem mem_keys_of_perm (same : order.Perm routes.entries) (key : Bytes) :
    key ∈ order.map Prod.fst ↔ routes.contains key = true := by
  rw [← OrderedMap.mem_keys_iff]
  exact (same.map Prod.fst).mem_iff

theorem longest_of_first (same : order.Perm routes.entries) {path chosen : Bytes}
    (first : FirstLongest path (order.map Prod.fst) chosen) : LongestMatch routes path chosen := by
  have largest := (first_largest_iff path _ chosen).mpr first
  refine ⟨(mem_keys_of_perm same chosen).mp largest.mem,
    (is_prefix_match_iff _ _).mp largest.accepted, fun key member isMatch => ?_⟩
  exact largest.largest ((mem_keys_of_perm same key).mpr member)
    ((is_prefix_match_iff _ _).mpr isMatch)

theorem selected_none_iff (same : order.Perm routes.entries) (path : Bytes) :
    order.foldl (longerMatch path) none = none ↔
      ∀ key, routes.contains key = true → ¬ Matches path key := by
  rw [longer_match_fold, keep_larger_eq_none]
  simp only [mem_keys_of_perm same, ← is_prefix_match_iff, Bool.not_eq_true]

theorem selected_iff (path chosen : Bytes) :
    order.foldl (longerMatch path) none = some chosen ↔
      FirstLongest path (order.map Prod.fst) chosen := by
  rw [longer_match_fold, keep_larger_eq_some, first_largest_iff]

/-- Without a tie the order does not matter. -/
theorem selected_untied_iff (same : order.Perm routes.entries) {path : Bytes}
    (untied : ¬ Tied routes path) (chosen : Bytes) :
    order.foldl (longerMatch path) none = some chosen ↔ LongestMatch routes path chosen := by
  constructor
  · intro selected
    exact longest_of_first same ((selected_iff path chosen).mp selected)
  · intro longest
    cases selected : order.foldl (longerMatch path) none with
    | none =>
        exact absurd longest.2.1 ((selected_none_iff same path).mp selected chosen longest.1)
    | some best =>
        have first := longest_of_first same ((selected_iff path best).mp selected)
        rw [longest_match_unique first longest untied]

end Orders

theorem not_captured {key : Bytes} (notRoot : key ≠ rootPrefix) {byte : Char}
    (notSlash : byte ≠ '/') (rest : Bytes) : ¬ Matches (key ++ byte :: rest) key := by
  rintro (root | whole | ⟨more, split⟩)
  · exact notRoot root
  · exact absurd whole (by simp)
  · exact notSlash (List.cons.inj (List.append_cancel_left split)).1

/-- The loop picks the longest match, the first in the order of the routes where
the root is tied with a key of one byte; nothing is picked when nothing matches. -/
theorem longest_prefix_routed (server : Server) (request : HttpRequest) :
    (∀ order : List (Bytes × RoutingPayload), order.Perm server.routes.entries →
      (∀ chosen, order.foldl (longerMatch request.path) none = some chosen ↔
        FirstLongest request.path (order.map Prod.fst) chosen) ∧
      (¬ Tied server.routes request.path → ∀ chosen,
        order.foldl (longerMatch request.path) none = some chosen ↔
          LongestMatch server.routes request.path chosen) ∧
      (order.foldl (longerMatch request.path) none = none ↔
        ∀ key, server.routes.contains key = true → ¬ Matches request.path key)) ∧
    (∀ count, (bestPrefix server.routes request.path = none ∧
        dispatch server count request = notFoundResponse) ∨
      ∃ chosen payload, bestPrefix server.routes request.path = some chosen ∧
        server.routes.find? chosen = some payload ∧
        dispatch server count request = server.handle count chosen payload request) ∧
    ∀ rest, bestPrefix server.routes ("/echoes".toList ++ rest) ≠ some "/echo".toList := by
  refine ⟨fun order same => ⟨selected_iff _, selected_untied_iff same, selected_none_iff same _⟩,
    fun count => ?_, fun rest captured => ?_⟩
  · rw [dispatch]
    cases best : bestPrefix server.routes request.path with
    | none => exact .inl ⟨rfl, rfl⟩
    | some chosen =>
        have longest := longest_of_first (List.Perm.refl _) ((selected_iff _ chosen).mp best)
        obtain ⟨payload, stored⟩ := (OrderedMap.contains_iff _ _).mp longest.1
        exact .inr ⟨chosen, payload, rfl, stored, by simp [stored]⟩
  · have longest := longest_of_first (List.Perm.refl _) ((selected_iff _ _).mp captured)
    exact not_captured (by decide) (by decide) _ longest.2.1

def Admitted (routes : RoutingMap) : Prop :=
  ∀ key, routes.contains key = true → key ≠ [] ∧ (key.getLast? = some '/' → key = rootPrefix)

/-- The root and a key of one byte match the path `x`, neither longer than the
other, and only one of them is picked. -/
theorem root_tied :
    ¬ ∀ routes path chosen, Admitted routes →
      (bestPrefix routes path = some chosen ↔ LongestMatch routes path chosen) := by
  intro picked
  let payload : RoutingPayload := ⟨"EchoHandler".toList, OrderedMap.empty⟩
  let routes : RoutingMap := (OrderedMap.empty.assign rootPrefix payload).assign ['x'] payload
  have keys : ∀ key, routes.contains key = true ↔ key = ['x'] ∨ key = rootPrefix := by
    intro key
    rw [← OrderedMap.mem_keys_iff]
    have entries : routes.entries.map Prod.fst = [rootPrefix, ['x']] := by decide
    rw [entries]
    simp [or_comm]
  have admitted : Admitted routes := by
    intro key stored
    rcases (keys key).mp stored with rfl | rfl
    · decide
    · decide
  have short : ∀ key, routes.contains key = true → key.length ≤ 1 := by
    intro key stored
    rcases (keys key).mp stored with rfl | rfl <;> decide
  have root := (picked routes ['x'] rootPrefix admitted).mpr
    ⟨(keys _).mpr (.inr rfl), .inl rfl, fun key stored _ => short key stored⟩
  have other := (picked routes ['x'] ['x'] admitted).mpr
    ⟨(keys _).mpr (.inl rfl), .inr (.inl rfl), fun key stored _ => short key stored⟩
  rw [root] at other
  cases other

end RestfulWebserver.Session
