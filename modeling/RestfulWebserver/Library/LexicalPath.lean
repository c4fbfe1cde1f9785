import Mathlib.Data.List.Induction
import RestfulWebserver.Library.Text

/-!
# Paths and what they name without looking at a disk

Joining as `boost::filesystem::path` does it on POSIX, and the lexical normal
form: components are taken from left to right, `.` stays, `..` goes up one
name. A relative path that goes up further than it went down starts with as many
`..`; an absolute one stays at the root.
-/

namespace RestfulWebserver.Library

/-- `path / more` as version 3 of `boost::filesystem` has it: a slash is put between
them unless there is one already. -/
def join (path more : Bytes) : Bytes :=
  if more = [] then path
  else if path = [] ∨ path.getLast? = some '/' ∨ more.head? = some '/' then path ++ more
  else path ++ '/' :: more

def isAbsolute (path : Bytes) : Bool := path.head? = some '/'

def components (path : Bytes) : List Bytes :=
  (path.splitOn '/').filter fun component => component ≠ [] && component ≠ ".".toList

def dotDot : Bytes := "..".toList

structure Location where
  absolute : Bool
  /-- How many `..` the normal form starts with. -/
  climbs : Nat
  /-- The names after them. -/
  names : List Bytes
  plain : dotDot ∉ names

def Location.enter (location : Location) (component : Bytes) : Location :=
  if up : component = dotDot then
    if location.names = [] then
      { location with climbs := location.climbs + if location.absolute then 0 else 1 }
    else
      { location with
        names := location.names.dropLast
        plain := fun member => location.plain (List.dropLast_subset _ member) }
  else
    { location with
      names := location.names ++ [component]
      plain := by
        intro member
        rcases List.mem_append.mp member with before | new
        · exact location.plain before
        · exact up (List.mem_singleton.mp new).symm }

def walk (location : Location) (path : List Bytes) : Location := path.foldl Location.enter location

def origin (absolute : Bool) : Location where
  absolute := absolute
  climbs := 0
  names := []
  plain := List.not_mem_nil

def locate (path : Bytes) : Location := walk (origin (isAbsolute path)) (components path)

def Location.normal (location : Location) : List Bytes :=
  List.replicate location.climbs dotDot ++ location.names

/-- `location` is `base` or below it: its normal form is that of `base` followed
by names. -/
def Within (base location : Location) : Prop :=
  location.absolute = base.absolute ∧
    ∃ below, location.normal = base.normal ++ below ∧ dotDot ∉ below

theorem within_iff (base location : Location) :
    Within base location ↔ location.absolute = base.absolute ∧ location.climbs = base.climbs ∧
      base.names <+: location.names := by
  have noneInBase := List.count_eq_zero.mpr base.plain
  have noneInLocation := List.count_eq_zero.mpr location.plain
  constructor
  · rintro ⟨sameRoot, below, normal, plainBelow⟩
    have count := congrArg (List.count dotDot) normal
    simp only [Location.normal, List.count_append, List.count_replicate_self, noneInBase,
      noneInLocation, List.count_eq_zero.mpr plainBelow, Nat.add_zero] at count
    refine ⟨sameRoot, count, below, ?_⟩
    rw [Location.normal, Location.normal, count, List.append_assoc,
      List.append_cancel_left_eq] at normal
    exact normal.symm
  · rintro ⟨sameRoot, sameClimbs, below, names⟩
    refine ⟨sameRoot, below, ?_, ?_⟩
    · rw [Location.normal, Location.normal, sameClimbs, List.append_assoc, names]
    · intro member
      apply location.plain
      rw [← names]
      exact List.mem_append_right _ member

theorem walk_append (location : Location) (path more : List Bytes) :
    walk location (path ++ more) = walk (walk location path) more := List.foldl_append

theorem walk_snoc (location : Location) (path : List Bytes) (component : Bytes) :
    walk location (path ++ [component]) = (walk location path).enter component := by
  rw [walk_append]
  rfl

section Steps

variable (location : Location) {component : Bytes}

theorem enter_absolute (component : Bytes) :
    (location.enter component).absolute = location.absolute := by
  unfold Location.enter
  split_ifs <;> rfl

theorem enter_above (top : location.names = []) :
    (location.enter dotDot).climbs = location.climbs + (if location.absolute then 0 else 1) ∧
      (location.enter dotDot).names = [] := by
  simp [Location.enter, top]

theorem enter_back (below : location.names ≠ []) :
    (location.enter dotDot).climbs = location.climbs ∧
      (location.enter dotDot).names = location.names.dropLast := by
  simp [Location.enter, below]

theorem enter_name (name : component ≠ dotDot) :
    (location.enter component).climbs = location.climbs ∧
      (location.enter component).names = location.names ++ [component] := by
  simp [Location.enter, name]

end Steps

theorem walk_absolute (location : Location) (path : List Bytes) :
    (walk location path).absolute = location.absolute := by
  induction path using List.reverseRecOn with
  | nil => rfl
  | append_singleton path component ih => rw [walk_snoc, enter_absolute, ih]

/-- `place` is where one gets from `start` on the way that leads from the
starting directory to `relative`: up through the names of `start` first. -/
structure Reached (start relative place : Location) : Prop where
  climbs : place.climbs = start.climbs +
    if start.absolute then 0 else relative.climbs - start.names.length
  names : place.names =
    start.names.take (start.names.length - relative.climbs) ++ relative.names

theorem reached_enter {start relative place : Location} (sameRoot : place.absolute = start.absolute)
    (onTheWay : relative.absolute = false) (reached : Reached start relative place)
    (component : Bytes) : Reached start (relative.enter component) (place.enter component) := by
  rcases reached with ⟨climbs, names⟩
  by_cases up : component = dotDot
  · subst up
    by_cases below : relative.names = []
    · rcases enter_above relative below with ⟨higher, noNames⟩
      simp only [onTheWay, Bool.false_eq_true, if_false] at higher
      rw [below, List.append_nil] at names
      by_cases top : place.names = []
      · rcases enter_above place top with ⟨placeHigher, placeTop⟩
        have allUsed : start.names.length ≤ relative.climbs := by
          have length := congrArg List.length names
          rw [top, List.length_take, List.length_nil] at length
          omega
        constructor
        · rw [placeHigher, higher, climbs, sameRoot]
          split_ifs <;> omega
        · rw [placeTop, noNames, higher, Nat.sub_eq_zero_of_le (by omega)]
          rfl
      · rcases enter_back place top with ⟨placeClimbs, placeNames⟩
        have someLeft : relative.climbs < start.names.length := by
          by_contra none
          rw [Nat.sub_eq_zero_of_le (by omega), List.take_zero] at names
          exact top names
        constructor
        · rw [placeClimbs, higher, climbs]
          split_ifs <;> omega
        · rw [placeNames, noNames, higher, names, List.append_nil, List.dropLast_eq_take,
            List.length_take, List.take_take]
          congr 1
          omega
    · rcases enter_back relative below with ⟨sameClimbs, fewer⟩
      have someNames : place.names ≠ [] := by
        rw [names]
        exact List.append_ne_nil_of_right_ne_nil _ below
      rcases enter_back place someNames with ⟨placeClimbs, placeNames⟩
      constructor
      · rw [placeClimbs, sameClimbs, climbs]
      · rw [placeNames, sameClimbs, fewer, names, List.dropLast_append_of_ne_nil below]
  · rcases enter_name relative up with ⟨sameClimbs, more⟩
    rcases enter_name place up with ⟨placeClimbs, placeNames⟩
    constructor
    · rw [placeClimbs, sameClimbs, climbs]
    · rw [placeNames, sameClimbs, more, names, List.append_assoc]

theorem walk_reached (start : Location) (path : List Bytes) :
    Reached start (walk (origin false) path) (walk start path) := by
  induction path using List.reverseRecOn with
  | nil => constructor <;> simp [walk, origin]
  | append_singleton path component ih =>
      rw [walk_snoc, walk_snoc]
      exact reached_enter (walk_absolute start path) (walk_absolute _ path) ih component

/-- A path from `base` comes back to it: after cancelling, the names that follow
its leading `..` begin with the names of `base` that these took away. -/
def ComesBack (base : Location) (path : List Bytes) : Prop :=
  ((walk (origin false) path).climbs ≤ base.names.length ∨ base.absolute = true) ∧
    base.names.drop (base.names.length - (walk (origin false) path).climbs) <+:
      (walk (origin false) path).names

theorem within_walk_iff (base : Location) (path : List Bytes) :
    Within base (walk base path) ↔ ComesBack base path := by
  rcases walk_reached base path with ⟨climbs, names⟩
  have sameClimbs : (walk base path).climbs = base.climbs ↔
      (walk (origin false) path).climbs ≤ base.names.length ∨ base.absolute = true := by
    rw [climbs]
    cases base.absolute
    · simp
      omega
    · simp
  have sameNames : base.names <+: (walk base path).names ↔
      base.names.drop (base.names.length - (walk (origin false) path).climbs) <+:
        (walk (origin false) path).names := by
    rw [names]
    conv =>
      lhs
      lhs
      rw [← List.take_append_drop
        (base.names.length - (walk (origin false) path).climbs) base.names]
    exact List.prefix_append_right_inj _
  rw [within_iff, ComesBack, sameClimbs, sameNames]
  simp [walk_absolute]

/-! ## Components of joined paths -/

theorem components_nil : components [] = [] := by decide

theorem components_slash (path more : Bytes) :
    components (path ++ '/' :: more) = components path ++ components more := by
  rw [components, List.splitOn_append_cons_self, List.filter_append]
  rfl

theorem components_join (path more : Bytes) :
    components (join path more) = components path ++ components more := by
  unfold join
  split_ifs with empty bare
  · rw [empty, components_nil, List.append_nil]
  · rcases bare with none | ends | begins
    · rw [none, components_nil]
      rfl
    · rcases List.getLast?_eq_some_iff.mp ends with ⟨front, rfl⟩
      rw [List.append_assoc, List.singleton_append, components_slash, components_slash,
        components_nil, List.append_nil]
    · rcases List.head?_eq_some_iff.mp begins with ⟨rest, rfl⟩
      have rooted := components_slash [] rest
      rw [components_nil, List.nil_append, List.nil_append] at rooted
      rw [components_slash, rooted]
  · exact components_slash path more

theorem mem_join {byte : Char} {path more : Bytes} (member : byte ∈ join path more) :
    byte ∈ path ∨ byte = '/' ∨ byte ∈ more := by
  unfold join at member
  split_ifs at member
  · exact Or.inl member
  · rcases List.mem_append.mp member with inPath | inMore
    · exact Or.inl inPath
    · exact Or.inr (Or.inr inMore)
  · rcases List.mem_append.mp member with inPath | behind
    · exact Or.inl inPath
    · exact Or.inr (List.mem_cons.mp behind)

theorem join_no_null {path more : Bytes} (noNull : '\x00' ∉ path) (moreNoNull : '\x00' ∉ more) :
    '\x00' ∉ join path more := by
  intro member
  rcases mem_join member with inPath | slash | inMore
  · exact noNull inPath
  · cases slash
  · exact moreNoNull inMore

theorem mem_join_left {byte : Char} {path : Bytes} (member : byte ∈ path) (more : Bytes) :
    byte ∈ join path more := by
  unfold join
  split_ifs
  · exact member
  · exact List.mem_append_left _ member
  · exact List.mem_append_left _ member

theorem components_cut_join {path : Bytes} (noNull : '\x00' ∉ path) (more : Bytes) :
    components (cString (join path more)) = components path ++ components (cString more) := by
  unfold join
  split_ifs with empty bare
  · rw [empty, c_string_whole noNull]
    exact (List.append_nil _).symm
  · rw [c_string_behind noNull]
    rcases bare with none | ends | begins
    · rw [none, components_nil]
      rfl
    · rcases List.getLast?_eq_some_iff.mp ends with ⟨front, rfl⟩
      rw [List.append_assoc, List.singleton_append, components_slash, components_slash,
        components_nil, List.append_nil]
    · rcases List.head?_eq_some_iff.mp begins with ⟨rest, rfl⟩
      have rooted := components_slash [] (cString rest)
      rw [components_nil, List.nil_append, List.nil_append] at rooted
      rw [c_string_cons (by decide), components_slash, rooted]
  · rw [c_string_behind noNull, c_string_cons (by decide), components_slash]

theorem join_cut {path : Bytes} (null : '\x00' ∈ path) (more : Bytes) :
    cString (join path more) = cString path := by
  unfold join
  split_ifs
  · rfl
  · exact c_string_cut null _
  · exact c_string_cut null _

/-- What has no slash stands behind the pieces of the path it is joined to, in the
place of an empty one at the end. -/
theorem pieces_join {path more : Bytes} (nonempty : path ≠ []) (someMore : more ≠ [])
    (noSlash : '/' ∉ more) :
    ∃ front, (join path more).splitOn '/' = front ++ [more] ∧
      (path.splitOn '/' = front ∨ path.splitOn '/' = front ++ [[]]) := by
  unfold join
  rw [if_neg someMore]
  split_ifs with bare
  · rcases bare with none | ends | begins
    · exact absurd none nonempty
    · rcases List.getLast?_eq_some_iff.mp ends with ⟨front, rfl⟩
      refine ⟨front.splitOn '/', ?_, Or.inr ?_⟩
      · rw [List.append_assoc, List.singleton_append, List.splitOn_append_cons_self,
          List.splitOn_eq_singleton noSlash]
      · rw [List.splitOn_append_cons_self]
        rfl
    · exact absurd (List.mem_of_mem_head? begins) noSlash
  · refine ⟨path.splitOn '/', ?_, Or.inl rfl⟩
    rw [List.splitOn_append_cons_self, List.splitOn_eq_singleton noSlash]

theorem components_single {name : Bytes} (nonempty : name ≠ []) (noSlash : '/' ∉ name)
    (notDot : name ≠ ".".toList) : components name = [name] := by
  have kept : (decide (name ≠ []) && decide (name ≠ ".".toList)) = true := by
    rw [decide_eq_true nonempty, decide_eq_true notDot]
    rfl
  rw [components, List.splitOn_eq_singleton noSlash]
  exact List.filter_cons_of_pos kept

/-- A path is a run without a slash, or two paths with a slash between them. -/
theorem slash_induction {motive : Bytes → Prop} (plain : ∀ text, '/' ∉ text → motive text)
    (joined : ∀ front rest, motive front → motive rest → motive (front ++ '/' :: rest))
    (text : Bytes) : motive text := by
  induction length : text.length using Nat.strong_induction_on generalizing text with
  | _ size ih =>
      by_cases slash : '/' ∈ text
      · obtain ⟨front, rest, rfl⟩ := List.append_of_mem slash
        simp only [List.length_append, List.length_cons] at length
        exact joined front rest (ih _ (by omega) front rfl) (ih _ (by omega) rest rfl)
      · exact plain text slash

theorem component_whole {text name : Bytes} (noSlash : '/' ∉ text)
    (member : name ∈ components text) : name = text := by
  rw [components, List.splitOn_eq_singleton noSlash] at member
  exact List.mem_singleton.mp (List.mem_filter.mp member).1

theorem component_of_mem {byte : Char} {text : Bytes} (member : byte ∈ text)
    (notSlash : byte ≠ '/') (notDot : byte ≠ '.') : ∃ name ∈ components text, byte ∈ name := by
  induction text using slash_induction with
  | plain text noSlash =>
      refine ⟨text, ?_, member⟩
      rw [components_single _ noSlash]
      · exact List.mem_singleton_self text
      · rintro rfl
        exact notDot (List.mem_singleton.mp member)
      · exact List.ne_nil_of_mem member
  | joined front rest first later =>
      rw [components_slash]
      rcases List.mem_append.mp member with inFront | behind
      · obtain ⟨name, isName, inName⟩ := first inFront
        exact ⟨name, List.mem_append_left _ isName, inName⟩
      · rcases List.mem_cons.mp behind with slash | inRest
        · exact absurd slash notSlash
        · obtain ⟨name, isName, inName⟩ := later inRest
          exact ⟨name, List.mem_append_right _ isName, inName⟩

theorem is_absolute_join (path more : Bytes) :
    isAbsolute (join path more) = if path = [] then isAbsolute more else isAbsolute path := by
  unfold join
  by_cases none : path = []
  · by_cases empty : more = [] <;> simp [none, empty]
  · rcases List.exists_cons_of_ne_nil none with ⟨first, rest, rfl⟩
    split_ifs <;> first | rfl | contradiction

/-- A path joined to `base` names something within it exactly when it does not
turn the empty path into an absolute one and comes back to `base`. -/
theorem within_join_iff (base more : Bytes) :
    Within (locate base) (locate (join base more)) ↔
      (base = [] → isAbsolute more = false) ∧ ComesBack (locate base) (components more) := by
  by_cases turns : base = [] ∧ isAbsolute more = true
  · have differs : ¬ Within (locate base) (locate (join base more)) := by
      intro within
      have roots := within.1
      rw [locate, locate, walk_absolute, walk_absolute] at roots
      simp [origin, is_absolute_join, turns.1, turns.2] at roots
      cases roots
    constructor
    · intro within
      exact absurd within differs
    · intro conditions
      have relative := conditions.1 turns.1
      rw [turns.2] at relative
      cases relative
  · have sameStart : isAbsolute (join base more) = isAbsolute base := by
      rw [is_absolute_join]
      split_ifs with empty
      · rw [empty]
        cases absolute : isAbsolute more with
        | false => rfl
        | true => exact absurd ⟨empty, absolute⟩ turns
      · rfl
    have onward : locate (join base more) = walk (locate base) (components more) := by
      rw [locate, sameStart, components_join, walk_append]
      rfl
    have stays : base = [] → isAbsolute more = false := by
      intro empty
      cases absolute : isAbsolute more with
      | false => rfl
      | true => exact absurd ⟨empty, absolute⟩ turns
    rw [onward, within_walk_iff]
    exact ⟨fun back => ⟨stays, back⟩, fun both => both.2⟩

def separator (last first : Option Char) : Bytes :=
  if last = none ∨ last = some '/' ∨ first = some '/' then [] else ['/']

theorem join_of_some (path : Bytes) {more : Bytes} (some : more ≠ []) :
    join path more = path ++ (separator path.getLast? more.head? ++ more) := by
  unfold join separator
  simp only [some, if_false, List.getLast?_eq_none_iff]
  split_ifs <;> rfl

theorem join_nil (path : Bytes) : join path [] = path := if_pos rfl

theorem nil_join (more : Bytes) : join [] more = more := by
  by_cases none : more = []
  · rw [none, join_nil]
  · rw [join_of_some [] none]
    rfl

theorem join_assoc (path middle more : Bytes) :
    join (join path middle) more = join path (join middle more) := by
  by_cases noMore : more = []
  · rw [noMore, join_nil, join_nil]
  · by_cases noMiddle : middle = []
    · rw [noMiddle, join_nil, nil_join]
    · rcases List.exists_cons_of_ne_nil noMiddle with ⟨first, rest, split⟩
      have someBoth : join middle more ≠ [] := by
        rw [join_of_some middle noMore, split]
        exact List.cons_ne_nil _ _
      have sameFirst : (join middle more).head? = middle.head? := by
        rw [join_of_some middle noMore, split]
        rfl
      have sameLast : (join path middle).getLast? = middle.getLast? := by
        have someLast : middle.getLast?.isSome := by
          rw [List.getLast?_isSome]
          exact noMiddle
        rw [join_of_some path noMiddle, List.getLast?_append, List.getLast?_append, Option.or_assoc,
          Option.or_of_isSome someLast]
      rw [join_of_some _ noMore, join_of_some path someBoth, sameLast, sameFirst,
        join_of_some path noMiddle, join_of_some middle noMore]
      simp only [List.append_assoc]

end RestfulWebserver.Library
