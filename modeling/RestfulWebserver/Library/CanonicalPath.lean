import RestfulWebserver.Library.Text

/-!
# Absolute paths as texts

A path without dots is spelt with a slash before each of its names. One such text
followed by a slash starts another exactly when its names start the other's.
-/

namespace RestfulWebserver.Library

def spelled (names : List Bytes) : Bytes := names.flatMap ('/' :: ·)

/-- The text of an absolute path; that of the root is a slash. -/
def absolutePath (names : List Bytes) : Bytes :=
  if names = [] then ['/'] else spelled names

def Plain (name : Bytes) : Prop := name ≠ [] ∧ '/' ∉ name

/-- `text` is what `path` begins with, and a name of `path` ends there. -/
def StartsPath (text path : Bytes) : Prop :=
  path.take text.length = text ∧
    (path.drop text.length = [] ∨ (path.drop text.length).head? = some '/')

instance (text path : Bytes) : Decidable (StartsPath text path) :=
  inferInstanceAs (Decidable (_ ∧ _))

theorem starts_path_iff (text path : Bytes) :
    StartsPath text path ↔
      ∃ rest, path = text ++ rest ∧ (rest = [] ∨ rest.head? = some '/') := by
  constructor
  · intro ⟨front, ends⟩
    have whole := List.take_append_drop text.length path
    rw [front] at whole
    exact ⟨path.drop text.length, whole.symm, ends⟩
  · intro ⟨rest, split, ends⟩
    rw [StartsPath, split, List.take_left, List.drop_left]
    exact ⟨rfl, ends⟩

theorem spelled_cons (name : Bytes) (names : List Bytes) :
    spelled (name :: names) = '/' :: (name ++ spelled names) := rfl

theorem spelled_append (names more : List Bytes) :
    spelled (names ++ more) = spelled names ++ spelled more := List.flatMap_append

theorem ends_at_slash {rest : Bytes} (names : List Bytes)
    (ends : rest = [] ∨ rest.head? = some '/') :
    EndsRun (fun byte => decide (byte ≠ '/')) (spelled names ++ rest) := by
  intro byte first
  cases names with
  | nil =>
      rcases ends with empty | slash
      · rw [empty] at first
        cases first
      · rw [spelled, List.flatMap_nil, List.nil_append, slash] at first
        cases first
        rfl
  | cons name names =>
      cases first
      rfl

theorem without_slash {text : Bytes} (noSlash : '/' ∉ text) :
    ∀ byte ∈ text, decide (byte ≠ '/') = true := by
  intro byte member
  rw [decide_eq_true_eq]
  rintro rfl
  exact noSlash member

/-- Where one text is the beginning of another, names and all, the names are. Empty
names are told from others by the slashes around them. -/
theorem spelled_prefix {names others : List Bytes} {rest : Bytes}
    (noSlash : ∀ name ∈ names, '/' ∉ name) (otherNoSlash : ∀ other ∈ others, '/' ∉ other)
    (same : spelled names ++ rest = spelled others) (ends : rest = [] ∨ rest.head? = some '/') :
    names <+: others := by
  induction names generalizing others with
  | nil => exact List.nil_prefix
  | cons name names ih =>
      obtain ⟨here, later⟩ := List.forall_mem_cons.mp noSlash
      cases others with
      | nil => cases same
      | cons other others =>
          obtain ⟨otherHere, otherLater⟩ := List.forall_mem_cons.mp otherNoSlash
          rw [spelled_cons, spelled_cons, List.cons_append, List.append_assoc] at same
          have behind := (List.cons.inj same).2
          have taken := take_while_run (without_slash here) (ends_at_slash names ends)
          have otherTaken :=
            take_while_run (without_slash otherHere) (ends_at_slash others (Or.inl rfl))
          rw [List.append_nil] at otherTaken
          rw [behind, otherTaken] at taken
          subst taken
          exact List.cons_prefix_cons.mpr
            ⟨rfl, ih later otherLater (List.append_cancel_left behind)⟩

theorem starts_spelled_iff {names others : List Bytes} (noSlash : ∀ name ∈ names, '/' ∉ name)
    (otherNoSlash : ∀ other ∈ others, '/' ∉ other) :
    StartsPath (spelled names) (spelled others) ↔ names <+: others := by
  rw [starts_path_iff]
  constructor
  · intro ⟨rest, split, ends⟩
    exact spelled_prefix noSlash otherNoSlash split.symm ends
  · rintro ⟨more, rfl⟩
    refine ⟨spelled more, spelled_append names more, ?_⟩
    cases more with
    | nil => exact Or.inl rfl
    | cons name more => exact Or.inr rfl

/-! ## Paths in normal form -/

/-- An absolute path without dots and double slashes. One slash may be left at its
end; that of the root is none. -/
structure NormalPath where
  names : List Bytes
  slash : Bool
  plain : ∀ name ∈ names, Plain name
  noDots : ∀ name ∈ names, name ≠ ".".toList ∧ name ≠ "..".toList
  root : names = [] → slash = false

namespace NormalPath

/-- A slash at the end has an empty name behind it. -/
def parts (path : NormalPath) : List Bytes := path.names ++ if path.slash then [[]] else []

def text (path : NormalPath) : Bytes :=
  if path.names = [] then ['/'] else spelled path.parts

end NormalPath

/-- What iterating over a path goes through: the root directory, the names, and an
empty name where a slash is left at the end. -/
def elements (path : Bytes) : List Bytes :=
  let names := (path.splitOn '/').filter (· ≠ [])
  (if path.head? = some '/' then [['/']] else []) ++
    (names ++ if names ≠ [] ∧ path.getLast? = some '/' then [[]] else [])

/-! ## The elements of a normal path -/

theorem split_spelled {name : Bytes} {names : List Bytes}
    (noSlash : ∀ other ∈ name :: names, '/' ∉ other) :
    (name ++ spelled names).splitOn '/' = name :: names := by
  induction names generalizing name with
  | nil =>
      obtain ⟨here, _⟩ := List.forall_mem_cons.mp noSlash
      rw [spelled, List.flatMap_nil, List.append_nil, List.splitOn_eq_singleton here]
  | cons next names ih =>
      obtain ⟨here, later⟩ := List.forall_mem_cons.mp noSlash
      rw [spelled_cons, List.splitOn_append_cons_self, List.splitOn_eq_singleton here, ih later]
      rfl

theorem spelled_last (names : List Bytes) {name : Bytes} (plain : Plain name) :
    (spelled (names ++ [name])).getLast? ≠ some '/' := by
  intro slash
  obtain ⟨front, last, rfl⟩ : ∃ front last, name = front ++ [last] :=
    ⟨_, _, (List.dropLast_concat_getLast plain.1).symm⟩
  have behind : spelled (names ++ [front ++ [last]]) = spelled names ++ '/' :: front ++ [last] := by
    simp [spelled]
  rw [behind, List.getLast?_concat] at slash
  cases slash
  exact plain.2 (by simp)

namespace NormalPath

variable {base path : NormalPath}

theorem parts_no_slash (path : NormalPath) : ∀ part ∈ path.parts, '/' ∉ part := by
  intro part member
  rcases List.mem_append.mp member with inNames | atEnd
  · exact (path.plain part inNames).2
  · split_ifs at atEnd
    · rw [List.mem_singleton.mp atEnd]
      exact List.not_mem_nil
    · cases atEnd

theorem parts_root (root : path.names = []) : path.parts = [] := by
  rw [parts, root, path.root root]
  rfl

theorem parts_below (below : path.names ≠ []) :
    ∃ name more, name ≠ [] ∧ path.parts = name :: more := by
  obtain ⟨name, names, split⟩ := List.exists_cons_of_ne_nil below
  have plain := path.plain name (by rw [split]; exact List.mem_cons_self)
  exact ⟨name, names ++ if path.slash then [[]] else [], plain.1, by rw [parts, split]; rfl⟩

theorem text_root_iff (path : NormalPath) : path.text = ['/'] ↔ path.names = [] := by
  constructor
  · intro isRoot
    by_contra below
    obtain ⟨name, more, nonempty, split⟩ := parts_below below
    rw [text, if_neg below, split, spelled_cons] at isRoot
    exact nonempty (List.append_eq_nil_iff.mp (List.cons.inj isRoot).2).1
  · intro root
    exact if_pos root

theorem parts_end (below : path.names ≠ []) :
    (spelled path.parts).getLast? = some '/' ↔ path.slash = true := by
  cases slash : path.slash with
  | true => simp [parts, slash, spelled]
  | false =>
      obtain ⟨names, name, split⟩ : ∃ names name, path.names = names ++ [name] :=
        ⟨_, _, (List.dropLast_concat_getLast below).symm⟩
      have plain := path.plain name (by simp [split])
      have noEnd := spelled_last names plain
      simp [parts, slash, split, noEnd]

theorem elements_text (path : NormalPath) : elements path.text = ['/'] :: path.parts := by
  by_cases root : path.names = []
  · rw [(text_root_iff path).mpr root, parts_root root]
    decide
  · obtain ⟨name, more, nonempty, split⟩ := parts_below root
    have noSlash : ∀ other ∈ [] :: path.parts, '/' ∉ other :=
      List.forall_mem_cons.mpr ⟨List.not_mem_nil, parts_no_slash path⟩
    have segments := split_spelled noSlash
    rw [List.nil_append] at segments
    have kept : path.names.filter (fun name => decide (name ≠ [])) = path.names := by
      rw [List.filter_eq_self]
      intro name member
      exact decide_eq_true (path.plain name member).1
    have names : ([] :: path.parts).filter (fun name => decide (name ≠ [])) = path.names := by
      rw [List.filter_cons_of_neg (by simp), parts, List.filter_append, kept]
      cases path.slash <;> simp
    have begins : (spelled path.parts).head? = some '/' := by
      rw [split]
      rfl
    rw [elements, text, if_neg root, segments, names, begins, if_pos rfl]
    simp only [parts_end root, ne_eq, root, not_false_eq_true, true_and]
    rfl

theorem starts_below_iff (below : base.names ≠ []) :
    StartsPath base.text path.text ↔ base.parts <+: path.parts := by
  obtain ⟨name, more, nonempty, split⟩ := parts_below below
  rw [text, if_neg below]
  by_cases root : path.names = []
  · have slash : path.text = spelled [[]] := (text_root_iff path).mpr root
    have noSlash : ∀ part ∈ [([] : Bytes)], '/' ∉ part := by simp
    rw [slash, starts_spelled_iff (parts_no_slash base) noSlash, parts_root root, split]
    constructor
    · intro before
      exact absurd (List.cons_prefix_cons.mp before).1 nonempty
    · intro before
      exact absurd (List.prefix_nil.mp before) (List.cons_ne_nil _ _)
  · rw [text, if_neg root]
    exact starts_spelled_iff (parts_no_slash base) (parts_no_slash path)

/-- The text of the root, a slash, begins no text but its own in this way. -/
theorem starts_root_iff (root : base.names = []) :
    StartsPath base.text path.text ↔ path.names = [] := by
  have slash : base.text = spelled [[]] := (text_root_iff base).mpr root
  have noSlash : ∀ part ∈ [([] : Bytes)], '/' ∉ part := by simp
  constructor
  · intro starts
    by_contra below
    obtain ⟨name, more, nonempty, split⟩ := parts_below below
    rw [slash, text, if_neg below, starts_spelled_iff noSlash (parts_no_slash path), split] at starts
    exact nonempty (List.cons_prefix_cons.mp starts).1.symm
  · intro pathRoot
    rw [slash, (text_root_iff path).mpr pathRoot]
    exact (starts_spelled_iff noSlash noSlash).mpr (List.prefix_refl _)

theorem parts_prefix_iff (noEnd : base.slash = false) :
    base.parts <+: path.parts ↔ base.names <+: path.names := by
  have baseParts : base.parts = base.names := by simp [parts, noEnd]
  rw [baseParts, parts]
  cases path.slash with
  | false => simp
  | true =>
      rw [if_pos rfl, List.prefix_concat_iff]
      constructor
      · rintro (whole | before)
        · have empty : [] ∈ base.names := by simp [whole]
          exact absurd rfl (base.plain [] empty).1
        · exact before
      · exact Or.inr

/-- The test of the texts is one of the elements, but for the root. -/
theorem starts_elements_iff (base path : NormalPath) :
    (StartsPath base.text path.text ↔ elements base.text <+: elements path.text) ↔
      (base.text ≠ ['/'] ∨ path.text = ['/']) := by
  rw [elements_text, elements_text, List.cons_prefix_cons, and_iff_right rfl, ne_eq,
    text_root_iff, text_root_iff]
  by_cases root : base.names = []
  · rw [starts_root_iff root, parts_root root]
    simp [root]
  · rw [starts_below_iff root]
    simp [root]

end NormalPath

end RestfulWebserver.Library
