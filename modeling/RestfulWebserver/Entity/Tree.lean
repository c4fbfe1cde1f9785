import Mathlib.Data.List.Infix
import RestfulWebserver.Entity.Filesystem

/-!
# A tree of directories

Directories and files under the names that lead to them from the root.
-/

namespace RestfulWebserver.Entity

open RestfulWebserver.Library RestfulWebserver.Http

/-- A directory is stored as `none`, a file as its contents. -/
abbrev Tree := List (List Bytes × Option Bytes)

namespace Tree

/-- The root of the tree is always there. -/
def lookup (tree : Tree) (place : List Bytes) : Option (Option Bytes) :=
  if place = [] then some none
  else (tree.find? fun node => node.1 = place).map Prod.snd

def discard (tree : Tree) (place : List Bytes) : Tree := tree.filter fun node => node.1 ≠ place

def put (tree : Tree) (place : List Bytes) (contents : Option Bytes) : Tree :=
  (place, contents) :: tree.discard place

def children (tree : Tree) (place : List Bytes) : List Bytes :=
  tree.filterMap fun node => if node.1.dropLast = place then node.1.getLast? else none

def makeDirectories (tree : Tree) : List (List Bytes) → Except Bytes Unit × Tree
  | [] => (.ok (), tree)
  | place :: later =>
      match tree.lookup place with
      | some none => tree.makeDirectories later
      | some (some _) => (.error "Not a directory".toList, tree)
      | none => makeDirectories (tree.put place none) later

def fileName (name : Bytes) : Option FileName :=
  if valid : name ≠ [] ∧ '/' ∉ name ∧ name ≠ ".".toList ∧ name ≠ dotDot then
    some ⟨name, valid.1, valid.2.1, valid.2.2.1, valid.2.2.2⟩
  else none

/-! ## Making directories twice -/

theorem lookup_put (tree : Tree) {place : List Bytes} (inner : place ≠ [])
    (contents : Option Bytes) (other : List Bytes) :
    (tree.put place contents).lookup other =
      if place = other then some contents else tree.lookup other := by
  by_cases same : place = other
  · subst same
    simp [lookup, put, inner]
  · rw [if_neg same]
    by_cases root : other = []
    · simp [lookup, root]
    · simp only [lookup, root, put, discard, if_false, List.find?_cons, same, decide_false,
        List.find?_filter]
      apply congrArg (Option.map Prod.snd)
      apply congrArg (fun accepts => List.find? accepts tree)
      funext node
      by_cases here : node.1 = other
      · simp [here, Ne.symm same]
      · simp [here]

theorem make_directories_keeps {tree : Tree} {other : List Bytes} {node : Option Bytes}
    (found : tree.lookup other = some node) (places : List (List Bytes)) :
    (tree.makeDirectories places).2.lookup other = some node := by
  induction places generalizing tree with
  | nil => exact found
  | cons place places ih =>
      simp only [makeDirectories]
      split
      · exact ih found
      · exact found
      · rename_i missing
        have inner : place ≠ [] := by
          rintro rfl
          cases missing
        have apart : place ≠ other := by
          rintro rfl
          cases missing.symm.trans found
        apply ih
        rw [lookup_put tree inner, if_neg apart, found]

/-- The second time every directory is there, or the same file is in the way. -/
theorem make_directories_again (tree : Tree) (places : List (List Bytes)) :
    (tree.makeDirectories places).2.makeDirectories places = tree.makeDirectories places := by
  induction places generalizing tree with
  | nil => rfl
  | cons place places ih =>
      have again : ∀ first : Tree, first.lookup place = some none →
          (first.makeDirectories places).2.makeDirectories (place :: places) =
            first.makeDirectories places := by
        intro first made
        rw [makeDirectories, make_directories_keeps made]
        exact ih first
      cases found : tree.lookup place with
      | none =>
          have inner : place ≠ [] := by
            rintro rfl
            cases found
          have step : tree.makeDirectories (place :: places) =
              (tree.put place none).makeDirectories places := by
            rw [makeDirectories, found]
          rw [step]
          apply again
          rw [lookup_put tree inner, if_pos rfl]
      | some node =>
          cases node with
          | none =>
              have step : tree.makeDirectories (place :: places) =
                  tree.makeDirectories places := by
                rw [makeDirectories, found]
              rw [step]
              exact again tree found
          | some contents =>
              have step : tree.makeDirectories (place :: places) =
                  (.error "Not a directory".toList, tree) := by
                rw [makeDirectories, found]
              rw [step]
              exact step

/-! ## What is where after a change -/

theorem lookup_discard (tree : Tree) {place : List Bytes} (inner : place ≠ [])
    (other : List Bytes) :
    (tree.discard place).lookup other = if place = other then none else tree.lookup other := by
  by_cases same : place = other
  · subst same
    simp [lookup, discard, inner]
  · rw [if_neg same]
    by_cases root : other = []
    · simp [lookup, root]
    · simp only [lookup, root, discard, if_false, List.find?_filter]
      apply congrArg (Option.map Prod.snd)
      apply congrArg (fun accepts => List.find? accepts tree)
      funext node
      by_cases here : node.1 = other
      · simp [here, Ne.symm same]
      · simp [here]

theorem lookup_below (tree : Tree) (place : List Bytes) (name : Bytes) :
    tree.lookup (place ++ [name]) =
      (tree.find? fun node => node.1 = place ++ [name]).map Prod.snd := by
  rw [lookup, if_neg (by simp)]

theorem mem_children (tree : Tree) (place : List Bytes) (name : Bytes) :
    name ∈ tree.children place ↔ (tree.lookup (place ++ [name])).isSome = true := by
  rw [lookup_below, Option.isSome_map, List.find?_isSome]
  simp only [children, List.mem_filterMap, decide_eq_true_eq]
  constructor
  · intro ⟨node, member, isChild⟩
    split_ifs at isChild with inPlace
    exact ⟨node, member, by
      rw [← inPlace, List.dropLast_append_getLast? name isChild]⟩
  · intro ⟨node, member, same⟩
    exact ⟨node, member, by simp [same]⟩

/-- Every place is stored once, and what lies in a place makes it a directory. -/
structure WellFormed (tree : Tree) : Prop where
  distinct : (tree.map Prod.fst).Nodup
  parents : ∀ place name node, tree.lookup (place ++ [name]) = some node →
    tree.lookup place = some none

theorem children_nodup {tree : Tree} (distinct : (tree.map Prod.fst).Nodup)
    (place : List Bytes) : (tree.children place).Nodup := by
  unfold children
  induction tree with
  | nil => simp
  | cons node rest ih =>
      rw [List.map_cons, List.nodup_cons] at distinct
      have later := ih distinct.2
      rw [List.filterMap_cons]
      split
      · exact later
      · rename_i name isChild
        rw [List.nodup_cons]
        refine ⟨?_, later⟩
        intro member
        obtain ⟨other, otherMember, otherChild⟩ := List.mem_filterMap.mp member
        split_ifs at isChild otherChild with inPlace otherInPlace
        apply distinct.1
        have same : node.1 = other.1 := by
          rw [← List.dropLast_append_getLast? name isChild,
            ← List.dropLast_append_getLast? name otherChild, inPlace, otherInPlace]
        rw [same]
        exact List.mem_map_of_mem otherMember

theorem put_distinct {tree : Tree} (distinct : (tree.map Prod.fst).Nodup) (place : List Bytes)
    (contents : Option Bytes) : ((tree.put place contents).map Prod.fst).Nodup := by
  rw [put, List.map_cons, List.nodup_cons]
  constructor
  · simp [discard]
  · exact distinct.sublist (List.filter_sublist.map Prod.fst)

theorem discard_distinct {tree : Tree} (distinct : (tree.map Prod.fst).Nodup)
    (place : List Bytes) : ((tree.discard place).map Prod.fst).Nodup :=
  distinct.sublist (List.filter_sublist.map Prod.fst)

theorem lookup_prefix {tree : Tree} (parents : ∀ place name node,
      tree.lookup (place ++ [name]) = some node → tree.lookup place = some none)
    {place early : List Bytes} (found : tree.lookup place = some none) (before : early <+: place) :
    tree.lookup early = some none := by
  obtain ⟨rest, rfl⟩ := before
  induction rest using List.reverseRecOn with
  | nil => simpa using found
  | append_singleton rest name ih =>
      rw [← List.append_assoc] at found
      exact ih (parents _ _ _ found)

theorem put_well_formed {tree : Tree} (wellFormed : tree.WellFormed) {place : List Bytes}
    {name : Bytes} (directory : tree.lookup place = some none) {node : Option Bytes}
    (keeps : tree.lookup (place ++ [name]) = some none → node = none) :
    (tree.put (place ++ [name]) node).WellFormed := by
  constructor
  · exact put_distinct wellFormed.distinct _ _
  · intro parent child other found
    have inner : place ++ [name] ≠ [] := by simp
    rw [lookup_put tree inner] at found ⊢
    split_ifs at found with same
    · obtain ⟨rfl, rfl⟩ := List.append_singleton_inj.mp same
      rw [if_neg (by simp), directory]
    · have isDirectory := wellFormed.parents parent child other found
      split_ifs with parentPut
      · rw [keeps (parentPut ▸ isDirectory)]
      · exact isDirectory

theorem put_file_well_formed {tree : Tree} (wellFormed : tree.WellFormed)
    {place : List Bytes} {name : Bytes} (directory : tree.lookup place = some none)
    (free : tree.lookup (place ++ [name]) ≠ some none) (contents : Bytes) :
    (tree.put (place ++ [name]) (some contents)).WellFormed := by
  apply put_well_formed wellFormed directory
  intro taken
  exact absurd taken free

theorem discard_well_formed {tree : Tree} (wellFormed : tree.WellFormed) {place : List Bytes}
    (inner : place ≠ []) (holdsNone : ∀ child, tree.lookup (place ++ [child]) = none) :
    (tree.discard place).WellFormed := by
  constructor
  · exact discard_distinct wellFormed.distinct _
  · intro parent child node found
    rw [lookup_discard tree inner] at found ⊢
    split_ifs at found with same
    have isDirectory := wellFormed.parents parent child node found
    have apart : place ≠ parent := by
      intro inside
      rw [← inside, holdsNone child] at found
      cases found
    rw [if_neg apart, isDirectory]

theorem discard_file_well_formed {tree : Tree} (wellFormed : tree.WellFormed)
    {place : List Bytes} (inner : place ≠ []) (file : tree.lookup place ≠ some none) :
    (tree.discard place).WellFormed := by
  apply discard_well_formed wellFormed inner
  intro child
  rw [Option.eq_none_iff_forall_ne_some]
  intro node found
  exact file (wellFormed.parents place child node found)

/-- Where no file is in the way every directory is made, and nothing else changes. -/
theorem make_directories_made {tree : Tree} {places : List (List Bytes)}
    (noFile : ∀ place ∈ places, ∀ contents, tree.lookup place ≠ some (some contents)) :
    (tree.makeDirectories places).1 = .ok () ∧
      (∀ other, (tree.makeDirectories places).2.lookup other =
        if other ∈ places then some none else tree.lookup other) ∧
      ((tree.map Prod.fst).Nodup → ((tree.makeDirectories places).2.map Prod.fst).Nodup) := by
  induction places generalizing tree with
  | nil => exact ⟨rfl, fun other => by simp [makeDirectories], fun distinct => distinct⟩
  | cons place places ih =>
      obtain ⟨here, later⟩ := List.forall_mem_cons.mp noFile
      rw [makeDirectories]
      cases found : tree.lookup place with
      | some node =>
          cases node with
          | some contents => exact absurd found (here contents)
          | none =>
              obtain ⟨made, lookups, keeps⟩ := ih later
              refine ⟨made, fun other => ?_, keeps⟩
              simp only [lookups, List.mem_cons]
              by_cases same : other = place
              · subst same
                simp [found]
              · simp [same]
      | none =>
          have inner : place ≠ [] := by
            intro root
            rw [root] at found
            cases found
          have laterFree : ∀ other ∈ places, ∀ contents,
              (tree.put place none).lookup other ≠ some (some contents) := by
            intro other member contents
            rw [lookup_put tree inner]
            split_ifs
            · simp
            · exact later other member contents
          obtain ⟨made, lookups, keeps⟩ := ih laterFree
          refine ⟨made, fun other => ?_, fun distinct => keeps (put_distinct distinct place none)⟩
          simp only [lookups, List.mem_cons, lookup_put tree inner]
          by_cases same : other = place
          · simp [same]
          · simp [same, Ne.symm same]

theorem make_directories_there {tree : Tree} {places : List (List Bytes)}
    (there : ∀ place ∈ places, tree.lookup place = some none) :
    tree.makeDirectories places = (.ok (), tree) := by
  induction places with
  | nil => rfl
  | cons place places ih =>
      obtain ⟨here, later⟩ := List.forall_mem_cons.mp there
      rw [makeDirectories, here]
      exact ih later

theorem make_directories_ok {tree : Tree} {places : List (List Bytes)}
    (made : (tree.makeDirectories places).1 = .ok ()) :
    ∀ place ∈ places, ∀ contents, tree.lookup place ≠ some (some contents) := by
  induction places generalizing tree with
  | nil => exact nofun
  | cons first places ih =>
      rw [makeDirectories] at made
      cases found : tree.lookup first with
      | none =>
          have inner : first ≠ [] := by
            intro root
            rw [root] at found
            cases found
          rw [found] at made
          intro place member contents file
          by_cases same : first = place
          · rw [same, file] at found
            cases found
          · rcases List.mem_cons.mp member with here | later
            · exact same here.symm
            · apply ih made place later contents
              rw [lookup_put tree inner, if_neg same, file]
      | some node =>
          cases node with
          | some other =>
              rw [found] at made
              cases made
          | none =>
              rw [found] at made
              rw [List.forall_mem_cons]
              constructor
              · intro contents
                rw [found]
                exact nofun
              · exact ih made

/-! ## What keeps a tree well formed -/

theorem put_directory_well_formed {tree : Tree} (wellFormed : tree.WellFormed)
    {place : List Bytes} (directory : tree.lookup place = some none) (name : Bytes) :
    (tree.put (place ++ [name]) none).WellFormed := by
  apply put_well_formed wellFormed directory
  intro _
  rfl

theorem discard_empty_well_formed {tree : Tree} (wellFormed : tree.WellFormed)
    {place : List Bytes} (inner : place ≠ []) (empty : tree.children place = []) :
    (tree.discard place).WellFormed := by
  apply discard_well_formed wellFormed inner
  intro child
  rw [Option.eq_none_iff_forall_ne_some]
  intro node found
  have member := (mem_children tree place child).mpr (by rw [found]; rfl)
  rw [empty] at member
  cases member

/-! ## Where files come from -/

theorem make_directories_file {tree : Tree} {places : List (List Bytes)} {other : List Bytes}
    {contents : Bytes}
    (found : (tree.makeDirectories places).2.lookup other = some (some contents)) :
    tree.lookup other = some (some contents) := by
  induction places generalizing tree with
  | nil => exact found
  | cons place places ih =>
      simp only [makeDirectories] at found
      split at found
      · exact ih found
      · exact found
      · rename_i missing
        have inner : place ≠ [] := by
          rintro rfl
          cases missing
        have before := ih found
        rw [lookup_put tree inner] at before
        split_ifs at before
        · cases before
        · exact before

theorem discard_file {tree : Tree} {place other : List Bytes} {contents : Bytes}
    (inner : place ≠ []) (found : (tree.discard place).lookup other = some (some contents)) :
    tree.lookup other = some (some contents) := by
  rw [lookup_discard tree inner] at found
  split_ifs at found
  exact found

end Tree

end RestfulWebserver.Entity
