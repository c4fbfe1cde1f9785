import RestfulWebserver.Static.Containment

/-!
# What a static handler has to offer

A response with success needs every check of the handler, and nothing else. A file to
which directories alone lead from the root passes all of them under its own name.
-/

namespace RestfulWebserver.Static

open Library Http Entity

/-! ## Names behind a path -/

theorem follow_names_append {files : FileSystem}
    {throughLink : Place → Bytes → List Bytes → Except Failure Place} {base goal : Place}
    {back : List Bytes}
    (onward : ∀ place target rest, throughLink place target rest = .ok base →
      throughLink place target (rest ++ back) = .ok goal)
    (ends : files.followNames throughLink base back = .ok goal) {place : Place}
    {front : List Bytes} (leads : files.followNames throughLink place front = .ok base) :
    files.followNames throughLink place (front ++ back) = .ok goal := by
  induction front generalizing place with
  | nil =>
      cases leads
      exact ends
  | cons component rest ih =>
      rw [FileSystem.followNames] at leads
      rw [List.cons_append, FileSystem.followNames]
      split_ifs at leads ⊢ with outside parent
      · exact ih leads
      · cases named : Tree.fileName component with
        | none =>
            rw [named] at leads
            exact ih leads
        | some name =>
            rw [named] at leads
            cases found : files.node (place ++ [name]) with
            | none =>
                simp only [found] at leads
                cases leads
            | some node =>
                cases node with
                | link target =>
                    simp only [found] at leads ⊢
                    exact onward place target rest leads
                | directory =>
                    simp only [found] at leads ⊢
                    exact ih leads
                | file contents readable =>
                    simp only [found] at leads ⊢
                    exact ih leads
                | special =>
                    simp only [found] at leads ⊢
                    exact ih leads

/-- Each link on the way takes one from what is left for the names behind it. -/
theorem follow_append {files : FileSystem} {links : Nat} {place base goal : Place}
    {front back : List Bytes} (ends : ∀ links, files.follow links base back = .ok goal)
    (leads : files.follow links place front = .ok base) :
    files.follow links place (front ++ back) = .ok goal := by
  induction links generalizing place front with
  | zero =>
      have noLink : ∀ (place : Place) (target : Bytes) (rest : List Bytes),
          (Except.error Failure.tooManyLinks : Except Failure Place) = .ok base →
            (Except.error Failure.tooManyLinks : Except Failure Place) = .ok goal := by
        intro _ _ _ impossible
        cases impossible
      exact follow_names_append noLink (ends 0) leads
  | succ links ih =>
      refine follow_names_append ?_ (ends (links + 1)) leads
      intro behind target rest through
      rw [← List.append_assoc]
      exact ih through

/-- From the place on there are directories below each other, and the file at the end. -/
def LeadsToFile (files : FileSystem) (contents : Bytes) (readable : Bool) :
    Place → List FileName → Prop
  | place, [] => files.node place = some (.file contents readable)
  | place, name :: names =>
      files.node place = some .directory ∧
        LeadsToFile files contents readable (place ++ [name]) names

theorem file_name_self (name : FileName) : Tree.fileName name.name = some name := by
  rw [Tree.fileName, dif_pos ⟨name.nonempty, name.noSlash, name.notDot, name.notDotDot⟩]

section Leading

variable {files : FileSystem} {contents : Bytes} {readable : Bool} {place : Place}
  {names : List FileName}

theorem node_on_way (leads : LeadsToFile files contents readable place names) :
    files.node place = some .directory ∨ files.node place = some (.file contents readable) := by
  cases names with
  | nil => exact Or.inr leads
  | cons name names => exact Or.inl leads.1

theorem leads_node (leads : LeadsToFile files contents readable place names) :
    files.node (place ++ names) = some (.file contents readable) := by
  induction names generalizing place with
  | nil =>
      rw [List.append_nil]
      exact leads
  | cons name names ih =>
      have behind := ih leads.2
      rw [List.append_assoc] at behind
      exact behind

theorem follow_names_way (throughLink : Place → Bytes → List Bytes → Except Failure Place)
    (leads : LeadsToFile files contents readable place names) :
    files.followNames throughLink place (names.map FileName.name) = .ok (place ++ names) := by
  induction names generalizing place with
  | nil =>
      rw [List.append_nil]
      rfl
  | cons name names ih =>
      obtain ⟨here, behind⟩ := leads
      have rest := ih behind
      rw [List.append_assoc] at rest
      rw [List.map_cons, FileSystem.followNames, here, if_neg (by decide),
        if_neg name.notDotDot, file_name_self]
      rcases node_on_way behind with directory | file
      · simp only [directory]
        exact rest
      · simp only [file]
        exact rest

theorem follow_way (leads : LeadsToFile files contents readable place names) (links : Nat) :
    files.follow links place (names.map FileName.name) = .ok (place ++ names) := by
  cases links with
  | zero => exact follow_names_way _ leads
  | succ links => exact follow_names_way _ leads

end Leading

/-- The names put behind the text of the root lead below the place of the root. -/
theorem resolve_below {files : FileSystem} {baseDir contents : Bytes} {readable : Bool}
    {base : Place} {names : List FileName} (resolved : files.resolve baseDir = .ok base)
    (asked : names ≠ []) (leads : LeadsToFile files contents readable base names)
    (noNull : '\x00' ∉ baseDir ++ spelled (names.map FileName.name)) :
    files.resolve (baseDir ++ spelled (names.map FileName.name)) = .ok (base ++ names) := by
  have rootNoNull : '\x00' ∉ baseDir := fun member => noNull (List.mem_append_left _ member)
  rw [FileSystem.resolve, c_string_whole rootNoNull] at resolved
  rw [FileSystem.resolve, c_string_whole noNull]
  by_cases empty : baseDir = []
  · rw [if_pos empty] at resolved
    cases resolved
  · rw [if_neg empty] at resolved
    obtain ⟨first, later, rfl⟩ := List.exists_cons_of_ne_nil asked
    obtain ⟨byte, rest, rfl⟩ := List.exists_cons_of_ne_nil empty
    rw [List.map_cons, spelled_cons, if_neg (List.append_ne_nil_of_left_ne_nil empty _),
      List.splitOn_append_cons_self, split_spelled]
    · exact follow_append (follow_way leads) resolved
    · intro name member
      exact (plain_names (first :: later) name member).2

/-! ## What the handler does with a file -/

section Files

open StaticFileHandler

variable {files : FileSystem} {path contents : Bytes} {readable : Bool} {place : Place}

theorem outcome_asking {Result : Type} (call : StaticCall)
    (onward : call.Answer → Except Failure Result) :
    outcome files (asking call onward) = onward (files.answer call) := rfl

/-- A regular file that may be opened is read whole up to 100 MiB. -/
theorem read_regular (leads : files.resolve path = .ok place)
    (isFile : files.node place = some (.file contents readable)) :
    outcome files (StaticFileHandler.readFile path) =
      .ok (if readable = true ∧ contents.length ≤ maxSafeSize then some contents else none) := by
  have found : (files.resolve path).toOption.bind files.node =
      some (.file contents readable) := by
    rw [leads]
    exact isFile
  have opened : outcome files (openAtEnd path) = .ok (files.answer (.openAtEnd path)) := rfl
  rw [StaticFileHandler.readFile, outcome_bind, opened]
  cases readable with
  | false =>
      have closed : files.answer (.openAtEnd path) = none := by
        simp only [FileSystem.answer, found]
        rfl
      rw [closed, if_neg (fun both => Bool.false_ne_true both.1)]
      rfl
  | true =>
      have atEnd : files.answer (.openAtEnd path) = some contents.length := by
        simp only [FileSystem.answer, found]
        rfl
      rw [atEnd]
      change outcome files (if _ then _ else _) = _
      by_cases large : maxSafeSize < contents.length
      · rw [if_pos large, if_neg (fun both => Nat.not_le_of_lt large both.2)]
        rfl
      · rw [if_neg large, if_pos ⟨rfl, Nat.le_of_not_lt large⟩]
        have answered : files.answer (.readBytes path contents.length) = some contents := by
          simp only [FileSystem.answer, found, Nat.le_refl, List.take_length]
          rfl
        exact congrArg Except.ok answered

theorem file_not_root (isFile : files.node place = some (.file contents readable)) :
    place ≠ [] := by
  rintro rfl
  rw [files.root] at isFile
  cases isFile

/-- Below the root `/` the check lets no file through. -/
theorem safe_file_iff {base : Place} (isFile : files.node place = some (.file contents readable)) :
    StartsPath (FileSystem.textOf base) (FileSystem.weakText (place, false)) ↔
      base ≠ [] ∧ base <+: place := by
  by_cases root : base = []
  · subst root
    have inner := file_not_root isFile
    constructor
    · intro starts
      exfalso
      obtain ⟨name, names, rfl⟩ := List.exists_cons_of_ne_nil inner
      rcases starts.2 with ends | slash
      · have someByte := congrArg List.length ends
        simp [FileSystem.weakText, FileSystem.textOf, absolutePath, spelled] at someByte
        exact name.nonempty someByte.1
      · obtain ⟨byte, bytes, spelt⟩ := List.exists_cons_of_ne_nil name.nonempty
        have first : byte = '/' := by
          simpa [FileSystem.weakText, FileSystem.textOf, absolutePath, spelled, spelt] using slash
        apply name.noSlash
        rw [spelt, first]
        exact List.mem_cons_self
    · intro both
      exact absurd rfl both.1
  · rw [starts_path_place root]
    exact (and_iff_right root).symm

/-- The response to a file that has been read. -/
def fileResponse (filePath content : Bytes) : HttpResponse where
  status := .ok
  headers := fileHeaders filePath content
  body := content

theorem regular_answer {pathPrefix baseDir : Bytes} {base : Place} {request : HttpRequest}
    (get : request.method = "GET".toList) (resolved : files.resolve baseDir = .ok base)
    (leads : files.resolve (filePathOf pathPrefix baseDir request.path) = .ok place)
    (isFile : files.node place = some (.file contents readable)) (notRoot : base ≠ [])
    (below : base <+: place) :
    outcome files (handleRequest pathPrefix baseDir request) =
      .ok (if readable = true ∧ contents.length ≤ maxSafeSize then
        fileResponse (filePathOf pathPrefix baseDir request.path) contents else notFound) := by
  have weak : files.weakPlace (filePathOf pathPrefix baseDir request.path) = .ok (place, false) := by
    rw [FileSystem.weakPlace, leads]
  have isSafe := outcome_safe resolved weak
  rw [decide_eq_true ((safe_file_iff isFile).mpr ⟨notRoot, below⟩)] at isSafe
  have status : files.status (filePathOf pathPrefix baseDir request.path) =
      .ok (some (.file contents readable)) := by
    rw [FileSystem.status, leads]
    exact congrArg Except.ok isFile
  have isThere : outcome files (pathExists (filePathOf pathPrefix baseDir request.path)) =
      .ok true := by
    change (files.status _).map Option.isSome = _
    rw [status]
    rfl
  have noDirectory : outcome files (isDirectory (filePathOf pathPrefix baseDir request.path)) =
      .ok false := by
    change (files.status _).map FileSystem.isDirectoryNode = _
    rw [status]
    rfl
  have isRegular : outcome files (isRegularFile (filePathOf pathPrefix baseDir request.path)) =
      .ok true := by
    change (files.status _).map _ = _
    rw [status]
    rfl
  have sized : outcome files (fileSize (filePathOf pathPrefix baseDir request.path)) =
      .ok contents.length := by
    have answered : files.answer (.fileSize (filePathOf pathPrefix baseDir request.path)) =
        .ok contents.length := by
      simp only [FileSystem.answer, leads, isFile]
      rfl
    rw [fileSize, outcome_asking, answered]
  rw [handleRequest, if_neg (not_not.mpr get), outcome_bind, isSafe]
  change outcome files (pathExists _ >>= _) = _
  rw [outcome_bind, isThere]
  change outcome files (isDirectory _ >>= _) = _
  rw [outcome_bind, noDirectory]
  change outcome files (isRegularFile _ >>= _) = _
  rw [outcome_bind, isRegular]
  change outcome files (fileSize _ >>= _) = _
  rw [outcome_bind, sized]
  change outcome files (StaticFileHandler.readFile _ >>= _) = _
  rw [outcome_bind, read_regular leads isFile]
  split_ifs <;> rfl

theorem answered_get {pathPrefix baseDir : Bytes} {request : HttpRequest} {response : HttpResponse}
    (ended : outcome files (handleRequest pathPrefix baseDir request) = .ok response)
    (success : response.status = .ok) : request.method = "GET".toList := by
  by_contra other
  rw [handleRequest, if_pos other] at ended
  cases ended
  cases success

end Files

open StaticFileHandler in
/-- A file is served exactly when the path leads to one below a root other than `/`, and
it can be opened and has 100 MiB at most. -/
theorem served_exactly (files : FileSystem) (pathPrefix baseDir : Bytes) (base : Place)
    (resolved : files.resolve baseDir = .ok base) (request : HttpRequest)
    (response : HttpResponse) :
    (outcome files (handleRequest pathPrefix baseDir request) = .ok response ∧
        response.status = .ok) ↔
      request.method = "GET".toList ∧ base ≠ [] ∧ ∃ place contents,
        files.resolve (filePathOf pathPrefix baseDir request.path) = .ok place ∧
        base <+: place ∧ files.node place = some (.file contents true) ∧
        contents.length ≤ maxSafeSize ∧
        response = fileResponse (filePathOf pathPrefix baseDir request.path) contents := by
  constructor
  · intro both
    obtain ⟨ended, success⟩ := both
    have get := answered_get ended success
    obtain ⟨isSafe, isRegular, _⟩ := served ended success
    obtain ⟨place, contents, readable, leads, isFile⟩ := regular_file isRegular
    have weak : files.weakPlace (filePathOf pathPrefix baseDir request.path) =
        .ok (place, false) := by
      rw [FileSystem.weakPlace, leads]
    rw [outcome_safe resolved weak, Except.ok.injEq, decide_eq_true_eq, safe_file_iff isFile]
      at isSafe
    obtain ⟨notRoot, below⟩ := isSafe
    rw [regular_answer get resolved leads isFile notRoot below, Except.ok.injEq] at ended
    by_cases open_small : readable = true ∧ contents.length ≤ maxSafeSize
    · rw [if_pos open_small] at ended
      obtain ⟨rfl, small⟩ := open_small
      exact ⟨get, notRoot, place, contents, leads, below, isFile, small, ended.symm⟩
    · rw [if_neg open_small] at ended
      rw [← ended] at success
      cases success
  · intro reached
    obtain ⟨get, notRoot, place, contents, leads, below, isFile, small, same⟩ := reached
    rw [regular_answer get resolved leads isFile notRoot below, if_pos ⟨rfl, small⟩, same]
    exact ⟨rfl, rfl⟩

/-! ## Below the root under its own name -/

theorem file_path_below {pathPrefix baseDir : Bytes} {path : Bytes} {names : List FileName}
    (asked : names ≠ [])
    (spelt : path = pathPrefix ++ spelled (names.map FileName.name) ∨
      path = pathPrefix ++ (spelled (names.map FileName.name)).tail) :
    StaticFileHandler.filePathOf pathPrefix baseDir path =
      baseDir ++ spelled (names.map FileName.name) := by
  obtain ⟨first, later, rfl⟩ := List.exists_cons_of_ne_nil asked
  obtain ⟨byte, rest, named⟩ := List.exists_cons_of_ne_nil first.nonempty
  rw [List.map_cons, spelled_cons, named] at spelt ⊢
  rcases spelt with whole | bare
  · have longer : pathPrefix.length < path.length := by
      rw [whole]
      simp
    rw [StaticFileHandler.filePathOf, if_pos longer, whole, List.drop_left, if_neg]
    rintro ⟨_, noSlash⟩
    exact noSlash rfl
  · have longer : pathPrefix.length < path.length := by
      rw [bare]
      simp
    have different : byte ≠ '/' := by
      rintro rfl
      apply first.noSlash
      rw [named]
      exact List.mem_cons_self
    rw [StaticFileHandler.filePathOf, if_pos longer, bare, List.drop_left, if_pos]
    · rfl
    · refine ⟨List.cons_ne_nil _ _, ?_⟩
      intro slash
      exact different (Option.some.inj slash)

/-- A file with directories alone between it and the root is there under the prefix
and its names. -/
theorem files_below_available (files : FileSystem) (pathPrefix baseDir contents : Bytes)
    (base : Place) (names : List FileName) (resolved : files.resolve baseDir = .ok base)
    (notRoot : base ≠ []) (asked : names ≠ [])
    (leads : LeadsToFile files contents true base names)
    (small : contents.length ≤ StaticFileHandler.maxSafeSize)
    (noNull : '\x00' ∉ baseDir ++ spelled (names.map FileName.name)) (request : HttpRequest)
    (get : request.method = "GET".toList)
    (spelt : request.path = pathPrefix ++ spelled (names.map FileName.name) ∨
      request.path = pathPrefix ++ (spelled (names.map FileName.name)).tail) :
    outcome files (StaticFileHandler.handleRequest pathPrefix baseDir request) =
      .ok (fileResponse (baseDir ++ spelled (names.map FileName.name)) contents) := by
  have filePath := @file_path_below pathPrefix baseDir request.path names asked spelt
  have reached := resolve_below resolved asked leads noNull
  rw [← filePath] at reached ⊢
  rw [regular_answer get resolved reached (leads_node leads) notRoot (List.prefix_append base names),
    if_pos ⟨rfl, small⟩]

def pageFiles : FileSystem where
  node := fun place =>
    if place = [] ∨ place = [siblingName] then some .directory
    else if place = [rootName] then some (.link "/www2".toList)
    else if place = [siblingName, pageName] then some (.file "hi".toList true)
    else none
  root := rfl
  workingDirectory := []
  unresolved := fun _ => .error .missing

theorem served_exactly_linked_root :
    outcome pageFiles (StaticFileHandler.handleRequest "/static".toList "/www/".toList
        pageRequest) = .ok (fileResponse "/www//a".toList "hi".toList) ∧
      (fileResponse "/www//a".toList "hi".toList).status = .ok :=
  (served_exactly pageFiles "/static".toList "/www/".toList [siblingName] (by decide +kernel)
    pageRequest (fileResponse "/www//a".toList "hi".toList)).mpr
    ⟨rfl, by decide, [siblingName, pageName], "hi".toList, by decide +kernel, by decide, rfl,
      by decide, rfl⟩

end RestfulWebserver.Static
