import RestfulWebserver.Entity.Tree

/-!
# Where a path leads

The system cuts a path at its first null byte and looks up one component after
the other, each in a directory. Nobody lacks a permission here, there are no
links, and the working directory is the root.
-/

namespace RestfulWebserver.Entity

open RestfulWebserver.Library RestfulWebserver.Http

namespace Tree

/-- The root has nothing above it; an empty component and a dot stay. -/
def enter (place : List Bytes) (component : Bytes) : List Bytes :=
  if component = dotDot then place.dropLast
  else if component = [] ∨ component = ".".toList then place
  else place ++ [component]

/-- Where components lead from a place if everything is there. -/
def onward (place path : List Bytes) : List Bytes := path.foldl enter place

def stations (place : List Bytes) : List Bytes → List (List Bytes)
  | [] => [place]
  | component :: rest => place :: stations (enter place component) rest

def placeAt (path : Bytes) : List Bytes := onward [] (components (cString path))

inductive Failure where
  | missing
  | notDirectory
  deriving DecidableEq, Repr

def Failure.what : Failure → Bytes
  | .missing => "No such file or directory".toList
  | .notDirectory => "Not a directory".toList

/-- Follow components from a place. What the last one names need not be there. -/
def follow (tree : Tree) (place : List Bytes) : List Bytes → Except Failure (List Bytes)
  | [] => .ok place
  | component :: rest =>
      match tree.lookup place with
      | none => .error .missing
      | some (some _) => .error .notDirectory
      | some none => tree.follow (enter place component) rest

def resolve (tree : Tree) (path : Bytes) : Except Failure (List Bytes) :=
  if cString path = [] then .error .missing
  -- the empty component behind a slash at the end asks for a directory as well
  else tree.follow [] ((cString path).splitOn '/')

def stat (tree : Tree) (path : Bytes) : Except Failure (Option Bytes) :=
  match tree.resolve path with
  | .error failure => .error failure
  | .ok place =>
      match tree.lookup place with
      | none => .error .missing
      | some node => .ok node

/-- The directories that a path asks for, down to its own. -/
def way (path : Bytes) : List (List Bytes) := stations [] (components (cString path))

/-- `std::filesystem::create_directories` -/
def createDirectories (tree : Tree) (path : Bytes) : Except Bytes Unit × Tree :=
  if path = [] then (.error "Invalid argument".toList, tree)
  else if cString path = [] then (.error Failure.missing.what, tree)
  else tree.makeDirectories (way path)

def lastName (path : Bytes) : Option Bytes :=
  (((cString path).splitOn '/').filter (· ≠ [])).getLast?

/-- `rmdir` -/
def removeDirectory (tree : Tree) (path : Bytes) : Except Bytes Bool × Tree :=
  match lastName path with
  | none => (.error "Device or resource busy".toList, tree)
  | some name =>
      if name = ".".toList then (.error "Invalid argument".toList, tree)
      else if name = dotDot ∨ tree.children (placeAt path) ≠ [] then
        (.error "Directory not empty".toList, tree)
      else (.ok true, tree.discard (placeAt path))

def perform (call : FileCall) (tree : Tree) : call.Answer × Tree :=
  match call with
  | .createDirectories path => tree.createDirectories path
  | .pathExists path => (.ok (tree.stat path).isOk, tree)
  | .readFile path =>
      match tree.stat path with
      | .error _ => (none, tree)
      -- a directory can be opened, but nothing be read from it
      | .ok node => (some (node.getD []), tree)
  | .writeFile path data =>
      match tree.resolve path with
      | .error _ => (false, tree)
      | .ok place =>
          if tree.lookup place = some none then (false, tree)
          else (true, tree.put place (some data))
  | .remove path =>
      match tree.stat path with
      | .error .missing => (.ok false, tree)
      | .error .notDirectory => (.error Failure.notDirectory.what, tree)
      | .ok (some _) => (.ok true, tree.discard (placeAt path))
      | .ok none => tree.removeDirectory path
  | .directoryEntries path =>
      match tree.stat path with
      | .error failure => (.error failure.what, tree)
      | .ok (some _) => (.error Failure.notDirectory.what, tree)
      | .ok none => (.ok ((tree.children (placeAt path)).filterMap fileName), tree)
  | .isRegularFile directory entry =>
      (.ok ((tree.lookup (placeAt directory ++ [entry.name])).join).isSome, tree)

/-! ## Following components -/

theorem onward_append (place front back : List Bytes) :
    onward place (front ++ back) = onward (onward place front) back := List.foldl_append

theorem enter_name {component : Bytes} (name : component ≠ []) (notDot : component ≠ ".".toList)
    (notUp : component ≠ dotDot) (place : List Bytes) :
    enter place component = place ++ [component] := by
  rw [enter, if_neg notUp, if_neg (not_or.mpr ⟨name, notDot⟩)]

theorem mem_stations_first (place path : List Bytes) : place ∈ stations place path := by
  cases path <;> exact List.mem_cons_self

theorem mem_stations_last (place path : List Bytes) : onward place path ∈ stations place path := by
  induction path generalizing place with
  | nil => exact List.mem_singleton_self place
  | cons component rest ih => exact List.mem_cons_of_mem _ (ih (enter place component))

theorem mem_stations_append (place front back station : List Bytes) :
    station ∈ stations place (front ++ back) ↔
      station ∈ stations place front ∨ station ∈ stations (onward place front) back := by
  induction front generalizing place with
  | nil =>
      constructor
      · exact Or.inr
      · rintro (first | later)
        · rw [List.mem_singleton.mp first]
          exact mem_stations_first place back
        · exact later
  | cons component rest ih =>
      rw [List.cons_append, stations, stations, List.mem_cons, List.mem_cons, ih, or_assoc]
      rfl

section Following

variable {tree : Tree} {place goal : List Bytes} {path : List Bytes}

theorem follow_first {component : Bytes} {rest : List Bytes}
    (followed : tree.follow place (component :: rest) = .ok goal) :
    tree.lookup place = some none ∧ tree.follow (enter place component) rest = .ok goal := by
  rw [follow] at followed
  cases found : tree.lookup place with
  | none =>
      rw [found] at followed
      cases followed
  | some node =>
      rw [found] at followed
      cases node with
      | some contents => cases followed
      | none => exact ⟨rfl, followed⟩

theorem follow_ok (followed : tree.follow place path = .ok goal) : goal = onward place path := by
  induction path generalizing place with
  | nil =>
      cases followed
      rfl
  | cons component rest ih => exact ih (follow_first followed).2

theorem follow_there (there : ∀ station ∈ stations place path, tree.lookup station = some none) :
    tree.follow place path = .ok (onward place path) := by
  induction path generalizing place with
  | nil => rfl
  | cons component rest ih =>
      obtain ⟨here, later⟩ := List.forall_mem_cons.mp there
      rw [follow, here]
      exact ih later

theorem stations_there (followed : tree.follow place path = .ok goal)
    (directory : tree.lookup goal = some none) :
    ∀ station ∈ stations place path, tree.lookup station = some none := by
  induction path generalizing place with
  | nil =>
      cases followed
      intro station member
      rw [List.mem_singleton.mp member, directory]
  | cons component rest ih =>
      obtain ⟨here, later⟩ := follow_first followed
      exact List.forall_mem_cons.mpr ⟨here, ih later⟩

theorem follow_append_ok {front back : List Bytes}
    (followed : tree.follow place (front ++ back) = .ok goal) :
    tree.follow place front = .ok (onward place front) ∧
      tree.follow (onward place front) back = .ok goal := by
  induction front generalizing place with
  | nil => exact ⟨rfl, followed⟩
  | cons component rest ih =>
      obtain ⟨here, later⟩ := follow_first followed
      obtain ⟨before, behind⟩ := ih later
      refine ⟨?_, behind⟩
      rw [follow, here]
      exact before

theorem follow_concat (tree : Tree) (place front : List Bytes) (name : Bytes) :
    tree.follow place (front ++ [name]) =
      match tree.follow place front with
      | .error failure => .error failure
      | .ok last =>
          match tree.lookup last with
          | none => .error .missing
          | some (some _) => .error .notDirectory
          | some none => .ok (enter last name) := by
  induction front generalizing place with
  | nil => rfl
  | cons component rest ih =>
      rw [List.cons_append, follow, follow]
      cases found : tree.lookup place with
      | none => rfl
      | some node =>
          cases node with
          | some contents => rfl
          | none => exact ih (enter place component)

/-! ## Empty components and dots -/

theorem enter_skipped {component : Bytes} (skipped : component = [] ∨ component = ".".toList)
    (place : List Bytes) : enter place component = place := by
  have notUp : component ≠ dotDot := by
    rcases skipped with rfl | rfl <;> decide
  rw [enter, if_neg notUp, if_pos skipped]

def meant (path : List Bytes) : List Bytes :=
  path.filter fun component => component ≠ [] && component ≠ ".".toList

theorem meant_cons_skipped {component : Bytes} (skipped : component = [] ∨ component = ".".toList)
    (rest : List Bytes) : meant (component :: rest) = meant rest := by
  rcases skipped with rfl | rfl <;> rfl

theorem meant_cons_name {component : Bytes} (name : ¬ (component = [] ∨ component = ".".toList))
    (rest : List Bytes) : meant (component :: rest) = component :: meant rest := by
  obtain ⟨nonempty, notDot⟩ := not_or.mp name
  unfold meant
  apply List.filter_cons_of_pos
  rw [decide_eq_true nonempty, decide_eq_true notDot]
  rfl

theorem onward_meant (place path : List Bytes) : onward place (meant path) = onward place path := by
  induction path generalizing place with
  | nil => rfl
  | cons component rest ih =>
      by_cases skipped : component = [] ∨ component = ".".toList
      · rw [meant_cons_skipped skipped, ih]
        change _ = onward (enter place component) rest
        rw [enter_skipped skipped]
      · rw [meant_cons_name skipped]
        exact ih (enter place component)

theorem follow_meant (followed : tree.follow place path = .ok goal) :
    tree.follow place (meant path) = .ok goal := by
  induction path generalizing place with
  | nil => exact followed
  | cons component rest ih =>
      obtain ⟨here, later⟩ := follow_first followed
      by_cases skipped : component = [] ∨ component = ".".toList
      · rw [enter_skipped skipped] at later
        rw [meant_cons_skipped skipped]
        exact ih later
      · rw [meant_cons_name skipped, follow, here]
        exact ih later

/-- At its end alone a path asks for more than the components that mean something. -/
theorem follow_of_meant (followed : tree.follow place (meant path) = .ok goal)
    (ends : ∀ last, path.getLast? = some last → (last = [] ∨ last = ".".toList) →
      tree.lookup goal = some none) :
    tree.follow place path = .ok goal := by
  induction path generalizing place with
  | nil => exact followed
  | cons component rest ih =>
      have later : ∀ last, rest.getLast? = some last → (last = [] ∨ last = ".".toList) →
          tree.lookup goal = some none := by
        intro last isLast
        apply ends last
        rw [List.getLast?_cons, isLast]
        rfl
      by_cases skipped : component = [] ∨ component = ".".toList
      · rw [meant_cons_skipped skipped] at followed
        have here : tree.lookup place = some none := by
          cases names : meant rest with
          | cons name names =>
              rw [names] at followed
              exact (follow_first followed).1
          | nil =>
              rw [names] at followed
              cases followed
              cases isLast : rest.getLast? with
              | none =>
                  apply ends component _ skipped
                  rw [List.getLast?_cons, isLast]
                  rfl
              | some last =>
                  apply later last isLast
                  by_contra name
                  have kept := List.filter_eq_nil_iff.mp names last (List.mem_of_getLast? isLast)
                  apply kept
                  obtain ⟨nonempty, notDot⟩ := not_or.mp name
                  rw [decide_eq_true nonempty, decide_eq_true notDot]
                  rfl
        rw [follow, here]
        change tree.follow (enter place component) rest = _
        rw [enter_skipped skipped]
        exact ih followed later
      · rw [meant_cons_name skipped] at followed
        obtain ⟨here, behind⟩ := follow_first followed
        rw [follow, here]
        exact ih behind later

end Following

/-! ## Paths -/

section Paths

variable {tree : Tree} {path : Bytes}

theorem onward_pieces (place : List Bytes) (text : Bytes) :
    onward place (text.splitOn '/') = onward place (components text) :=
  (onward_meant place (text.splitOn '/')).symm

theorem resolve_ok {place : List Bytes} (resolved : tree.resolve path = .ok place) :
    place = placeAt path := by
  unfold resolve at resolved
  split_ifs at resolved
  rw [follow_ok resolved, onward_pieces]
  rfl

theorem stat_ok_iff (node : Option Bytes) :
    tree.stat path = .ok node ↔
      tree.resolve path = .ok (placeAt path) ∧ tree.lookup (placeAt path) = some node := by
  unfold stat
  cases resolved : tree.resolve path with
  | error failure => simp
  | ok place =>
      rw [resolve_ok resolved]
      cases found : tree.lookup (placeAt path) <;> simp [found]

/-- A path leads to a directory where every place on the way is one. -/
theorem directory_iff : tree.stat path = .ok none ↔
    cString path ≠ [] ∧ ∀ station ∈ way path, tree.lookup station = some none := by
  rw [stat_ok_iff]
  constructor
  · intro ⟨resolved, directory⟩
    unfold resolve at resolved
    split_ifs at resolved with none
    exact ⟨none, stations_there (follow_meant resolved) directory⟩
  · intro ⟨nonempty, there⟩
    have directory := there _ (mem_stations_last [] (components (cString path)))
    refine ⟨?_, directory⟩
    rw [resolve, if_neg nonempty]
    exact follow_of_meant (follow_there there) fun _ _ _ => directory

theorem place_join (noNull : '\x00' ∉ path) (more : Bytes) :
    placeAt (join path more) = onward (placeAt path) (components (cString more)) := by
  rw [placeAt, components_cut_join noNull, onward_append, placeAt, c_string_whole noNull]

/-- A name behind a path is looked up in what the path leads to. -/
theorem resolve_join {name : Bytes} (noNull : '\x00' ∉ path) (someText : path ≠ [])
    (nonempty : name ≠ []) (noSlash : '/' ∉ name) (nameNoNull : '\x00' ∉ name) :
    tree.resolve (join path name) =
      match tree.stat path with
      | .error failure => .error failure
      | .ok (some _) => .error .notDirectory
      | .ok none => .ok (enter (placeAt path) name) := by
  obtain ⟨front, split, pieces⟩ := pieces_join someText nonempty noSlash
  have someJoined : join path name ≠ [] := by
    intro empty
    rw [empty] at split
    rcases List.append_eq_singleton_iff.mp split.symm with both | both
    · exact nonempty (List.singleton_inj.mp both.2)
    · cases both.2
  have joined : tree.resolve (join path name) = tree.follow [] (front ++ [name]) := by
    rw [resolve, c_string_whole (join_no_null noNull nameNoNull), if_neg someJoined, split]
  have alone : tree.resolve path = tree.follow [] (path.splitOn '/') := by
    rw [resolve, c_string_whole noNull, if_neg someText]
  rw [joined, follow_concat]
  cases followed : tree.follow [] front with
  | error failure =>
      have failed : tree.resolve path = .error failure := by
        rcases pieces with same | open'
        · rw [alone, same, followed]
        · rw [alone, open', follow_concat, followed]
      rw [stat, failed]
  | ok place =>
      have whole : path.splitOn '/' = front → tree.resolve path = .ok place := by
        intro same
        rw [alone, same, followed]
      cases found : tree.lookup place with
      | none =>
          have failed : tree.stat path = .error .missing := by
            rcases pieces with same | bare
            · rw [stat, whole same]
              simp only [found]
            · rw [stat, alone, bare, follow_concat, followed]
              simp only [found]
          rw [failed]
          simp only [found]
      | some node =>
          cases node with
          | some contents =>
              rcases pieces with same | bare
              · rw [stat, whole same]
                simp only [found]
              · rw [stat, alone, bare, follow_concat, followed]
                simp only [found]
          | none =>
              have resolved : tree.resolve path = .ok place := by
                rcases pieces with same | bare
                · exact whole same
                · rw [alone, bare, follow_concat, followed]
                  simp only [found]
                  rfl
              have here := resolve_ok resolved
              rw [stat, resolved]
              simp only [found]
              rw [here]

theorem stat_join {name : Bytes} (noNull : '\x00' ∉ path) (someText : path ≠ [])
    (nonempty : name ≠ []) (noSlash : '/' ∉ name) (nameNoNull : '\x00' ∉ name) :
    tree.stat (join path name) =
      match tree.stat path with
      | .error failure => .error failure
      | .ok (some _) => .error .notDirectory
      | .ok none =>
          match tree.lookup (enter (placeAt path) name) with
          | none => .error .missing
          | some node => .ok node := by
  rw [stat, resolve_join noNull someText nonempty noSlash nameNoNull]
  cases tree.stat path with
  | error failure => rfl
  | ok node => cases node <;> rfl

theorem place_mem_way (path : Bytes) : placeAt path ∈ way path := mem_stations_last _ _

theorem mem_way_join (noNull : '\x00' ∉ path) (more : Bytes) (station : List Bytes) :
    station ∈ way (join path more) ↔
      station ∈ way path ∨ station ∈ stations (placeAt path) (components (cString more)) := by
  rw [way, components_cut_join noNull, mem_stations_append, way, placeAt, c_string_whole noNull]

/-- Paths that the system cannot tell apart lead to the same. -/
theorem stat_cut {other : Bytes} (same : cString path = cString other) :
    tree.stat path = tree.stat other := by
  rw [stat, stat, resolve, resolve, same]

/-! ## Making the way -/

theorem create_ok (made : (tree.createDirectories path).1 = .ok ()) :
    cString path ≠ [] ∧
      (∀ station ∈ way path, ∀ contents, tree.lookup station ≠ some (some contents)) ∧
      (tree.createDirectories path).2 = (tree.makeDirectories (way path)).2 := by
  unfold createDirectories at made ⊢
  split_ifs at made ⊢ with empty cut
  exact ⟨cut, make_directories_ok made, rfl⟩

theorem create_lookup (made : (tree.createDirectories path).1 = .ok ()) (other : List Bytes) :
    (tree.createDirectories path).2.lookup other =
      if other ∈ way path then some none else tree.lookup other := by
  obtain ⟨_, noFile, same⟩ := create_ok made
  rw [same]
  exact (make_directories_made noFile).2.1 other

theorem create_stat (made : (tree.createDirectories path).1 = .ok ()) :
    (tree.createDirectories path).2.stat path = .ok none := by
  refine directory_iff.mpr ⟨(create_ok made).1, fun station member => ?_⟩
  rw [create_lookup made, if_pos member]

theorem text_of_cut (cut : cString path ≠ []) : path ≠ [] := by
  rintro rfl
  exact cut rfl

theorem create_makes (cut : cString path ≠ [])
    (noFile : ∀ station ∈ way path, ∀ contents, tree.lookup station ≠ some (some contents)) :
    (tree.createDirectories path).1 = .ok () := by
  rw [createDirectories, if_neg (text_of_cut cut), if_neg cut]
  exact (make_directories_made noFile).1

theorem create_there (directory : tree.stat path = .ok none) :
    tree.createDirectories path = (.ok (), tree) := by
  obtain ⟨cut, there⟩ := directory_iff.mp directory
  rw [createDirectories, if_neg (text_of_cut cut), if_neg cut]
  exact make_directories_there there

theorem create_again (tree : Tree) (path : Bytes) :
    (tree.createDirectories path).2.createDirectories path = tree.createDirectories path := by
  unfold createDirectories
  split_ifs
  · rfl
  · rfl
  · exact make_directories_again tree (way path)

end Paths

/-! ## What a call may change -/

theorem make_stations_well_formed {tree : Tree} (wellFormed : tree.WellFormed)
    (place path : List Bytes) (inDirectory : place = [] ∨ tree.lookup place.dropLast = some none) :
    (tree.makeDirectories (stations place path)).2.WellFormed := by
  have made : ∀ (tree : Tree) (place : List Bytes), tree.WellFormed →
      (place = [] ∨ tree.lookup place.dropLast = some none) → tree.lookup place = none →
        (tree.put place none).WellFormed ∧ (tree.put place none).lookup place = some none := by
    intro tree place wellFormed inDirectory missing
    have inner : place ≠ [] := by
      rintro rfl
      cases missing
    rcases inDirectory with root | directory
    · exact absurd root inner
    · refine ⟨?_, by rw [lookup_put tree inner, if_pos rfl]⟩
      rw [← List.dropLast_append_getLast inner]
      exact put_directory_well_formed wellFormed directory _
  induction path generalizing tree place with
  | nil =>
      rw [stations, makeDirectories]
      cases found : tree.lookup place with
      | none => exact (made tree place wellFormed inDirectory found).1
      | some node => cases node <;> exact wellFormed
  | cons component rest ih =>
      have later : ∀ tree : Tree, tree.WellFormed → tree.lookup place = some none →
          (tree.makeDirectories (stations (enter place component) rest)).2.WellFormed := by
        intro tree wellFormed directory
        apply ih wellFormed
        have above : ∀ early, early <+: place → tree.lookup early = some none :=
          fun early => lookup_prefix wellFormed.parents directory
        unfold enter
        split_ifs
        · exact Or.inr (above _ ((List.dropLast_prefix _).trans (List.dropLast_prefix _)))
        · exact Or.inr (above _ (List.dropLast_prefix _))
        · rw [List.dropLast_concat]
          exact Or.inr directory
      rw [stations, makeDirectories]
      cases found : tree.lookup place with
      | none =>
          obtain ⟨madeWell, directory⟩ := made tree place wellFormed inDirectory found
          exact later _ madeWell directory
      | some node =>
          cases node with
          | some contents => exact wellFormed
          | none => exact later tree wellFormed found

theorem create_well_formed {tree : Tree} (wellFormed : tree.WellFormed) (path : Bytes) :
    (tree.createDirectories path).2.WellFormed := by
  unfold createDirectories
  split_ifs
  · exact wellFormed
  · exact wellFormed
  · exact make_stations_well_formed wellFormed _ _ (Or.inl rfl)

theorem last_name_place {path name : Bytes} (last : lastName path = some name)
    (notDot : name ≠ ".".toList) (notUp : name ≠ dotDot) :
    ∃ place, placeAt path = place ++ [name] := by
  obtain ⟨front, split⟩ := List.getLast?_eq_some_iff.mp last
  have nonempty : name ≠ [] := by
    have member := List.mem_of_getLast? last
    exact of_decide_eq_true (List.mem_filter.mp member).2
  have names : components (cString path) =
      (front.filter fun component => component ≠ ".".toList) ++ [name] := by
    have both : components (cString path) = (((cString path).splitOn '/').filter (· ≠ [])).filter
        fun component => component ≠ ".".toList := by
      rw [components, List.filter_filter]
      simp only [Bool.and_comm]
    rw [both, split, List.filter_append]
    congr 1
    exact List.filter_cons_of_pos (decide_eq_true notDot)
  rw [placeAt, names, onward_append]
  exact ⟨_, enter_name nonempty notDot notUp _⟩

theorem resolve_new {tree : Tree} (wellFormed : tree.WellFormed) {path : Bytes} {place : List Bytes}
    (resolved : tree.resolve path = .ok place) (free : tree.lookup place ≠ some none) :
    ∃ front name, components (cString path) = front ++ [name] ∧
      place = onward [] front ++ [name] ∧ tree.lookup (onward [] front) = some none := by
  unfold resolve at resolved
  split_ifs at resolved
  have names : tree.follow [] (components (cString path)) = .ok place := follow_meant resolved
  rcases List.eq_nil_or_concat (components (cString path)) with none | ⟨front, name, split⟩
  · rw [none] at names
    cases names
    exact absurd rfl free
  · rw [List.concat_eq_append] at split
    rw [split] at names
    obtain ⟨before, last⟩ := follow_append_ok names
    obtain ⟨directory, ends⟩ := follow_first last
    cases ends
    have member : name ∈ components (cString path) := by simp [split]
    have kept := (List.mem_filter.mp member).2
    simp only [Bool.and_eq_true, decide_eq_true_eq] at kept
    have notUp : name ≠ dotDot := by
      rintro rfl
      apply free
      rw [enter, if_pos rfl]
      exact lookup_prefix wellFormed.parents directory (List.dropLast_prefix _)
    exact ⟨front, name, split, enter_name kept.1 kept.2 notUp _, directory⟩

theorem inner_of_free {tree : Tree} {place : List Bytes} (free : tree.lookup place ≠ some none) :
    place ≠ [] := by
  rintro rfl
  exact free rfl

/-- What a call may do to the tree: make directories that are missing, put one file in
its place, or take out one file or one empty directory. -/
inductive Change (tree : Tree) : FileCall → Tree → Prop
  | nothing (call : FileCall) : Change tree call tree
  | made (path : Bytes) :
      Change tree (.createDirectories path) (tree.makeDirectories (way path)).2
  | written (path data : Bytes) (place : List Bytes) (resolved : tree.resolve path = .ok place)
      (free : tree.lookup place ≠ some none) :
      Change tree (.writeFile path data) (tree.put place (some data))
  | removed (path : Bytes) (inner : placeAt path ≠ [])
      (last : tree.lookup (placeAt path) ≠ some none ∨ tree.children (placeAt path) = []) :
      Change tree (.remove path) (tree.discard (placeAt path))

theorem remove_directory_changes (tree : Tree) (path : Bytes) :
    Change tree (.remove path) (tree.removeDirectory path).2 := by
  unfold removeDirectory
  cases last : lastName path with
  | none => exact .nothing _
  | some name =>
      simp only
      split_ifs with dot kept
      · exact .nothing _
      · exact .nothing _
      · obtain ⟨notUp, empty⟩ := not_or.mp kept
        obtain ⟨front, isPlace⟩ := last_name_place last dot notUp
        apply Change.removed path
        · simp [isPlace]
        · exact Or.inr (not_not.mp empty)

theorem perform_changes (call : FileCall) (tree : Tree) :
    Change tree call (perform call tree).2 := by
  cases call with
  | createDirectories path =>
      unfold perform createDirectories
      simp only
      split_ifs
      · exact .nothing _
      · exact .nothing _
      · exact .made path
  | writeFile path data =>
      unfold perform
      simp only
      cases resolved : tree.resolve path with
      | error failure => exact .nothing _
      | ok place =>
          simp only
          split_ifs with taken
          · exact .nothing _
          · exact .written path data place resolved taken
  | remove path =>
      unfold perform
      simp only
      cases found : tree.stat path with
      | error failure => cases failure <;> exact .nothing _
      | ok node =>
          cases node with
          | none => exact remove_directory_changes tree path
          | some contents =>
              have file : tree.lookup (placeAt path) ≠ some none := by
                rw [((stat_ok_iff _).mp found).2]
                simp
              exact .removed path (inner_of_free file) (Or.inl file)
  | readFile path | directoryEntries path =>
      unfold perform
      simp only
      split <;> exact .nothing _
  | pathExists | isRegularFile => exact .nothing _

theorem perform_well_formed {tree : Tree} (wellFormed : tree.WellFormed) (call : FileCall) :
    (perform call tree).2.WellFormed := by
  have change := perform_changes call tree
  generalize (perform call tree).2 = next at change ⊢
  cases change with
  | nothing => exact wellFormed
  | made path => exact make_stations_well_formed wellFormed _ _ (Or.inl rfl)
  | written path data place resolved free =>
      obtain ⟨front, name, _, rfl, directory⟩ := resolve_new wellFormed resolved free
      exact put_file_well_formed wellFormed directory free data
  | removed path inner last =>
      cases last with
      | inl file => exact discard_file_well_formed wellFormed inner file
      | inr empty => exact discard_empty_well_formed wellFormed inner empty

/-- A file that is there after a call was there before, or the call wrote it. -/
theorem perform_file {call : FileCall} {tree : Tree} {place : List Bytes} {contents : Bytes}
    (found : (perform call tree).2.lookup place = some (some contents)) :
    tree.lookup place = some (some contents) ∨
      ∃ path data, call = .writeFile path data ∧ tree.resolve path = .ok place ∧
        tree.lookup place ≠ some none := by
  have change := perform_changes call tree
  generalize (perform call tree).2 = next at found change
  cases change with
  | nothing => exact Or.inl found
  | made path => exact Or.inl (make_directories_file found)
  | written path data written resolved free =>
      by_cases here : written = place
      · subst here
        exact Or.inr ⟨path, data, rfl, resolved, free⟩
      · rw [lookup_put tree (inner_of_free free), if_neg here] at found
        exact Or.inl found
  | removed path inner last => exact Or.inl (discard_file inner found)

end Tree

end RestfulWebserver.Entity
