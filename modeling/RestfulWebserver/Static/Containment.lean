import RestfulWebserver.Static.StaticFileHandler

/-!
# What a static handler serves

The check compares texts where it means places. The two agree below every root
but `/`, where the check lets nothing through.
-/

namespace RestfulWebserver.Static

open Library Http Entity

def outcome {Result : Type} (files : FileSystem) (program : StaticM Result) :
    Except Failure Result :=
  (Program.exec FileSystem.perform program.run files).1

def reads : StaticCall → Bool
  | .openAtEnd _ => true
  | .readBytes _ _ => true
  | _ => false

def NeverReads {Result : Type} (files : FileSystem) (program : StaticM Result) : Prop :=
  Program.Answered FileSystem.perform (fun call _ => reads call = false) program.run files

section Running

variable {Result Other : Type} {files : FileSystem}

theorem files_stay (files : FileSystem) (program : StaticM Result) :
    (Program.exec FileSystem.perform program.run files).2 = files := by
  have kept : ∀ (call : StaticCall) (world : FileSystem), world = files →
      (FileSystem.perform call world).2 = files := fun _ _ same => same
  exact Program.exec_invariant kept program.run rfl

theorem outcome_bind (program : StaticM Result) (onward : Result → StaticM Other) :
    outcome files (program >>= onward) =
      outcome files program >>= fun result => outcome files (onward result) := by
  have both := Program.exec_bind FileSystem.perform program.run (ExceptT.bindCont onward) files
  rw [files_stay] at both
  unfold outcome
  change (Program.exec _ (program.run >>= _) files).1 = _
  rw [both]
  cases (Program.exec FileSystem.perform program.run files).1 <;> rfl

theorem outcome_ok {program : StaticM Result} {onward : Result → StaticM Other} {result : Other}
    (ended : outcome files (program >>= onward) = .ok result) :
    ∃ first, outcome files program = .ok first ∧ outcome files (onward first) = .ok result := by
  rw [outcome_bind] at ended
  cases first : outcome files program with
  | error failure =>
      rw [first] at ended
      cases ended
  | ok value =>
      rw [first] at ended
      exact ⟨value, rfl, ended⟩

theorem never_reads_bind (program : StaticM Result) (onward : Result → StaticM Other) :
    NeverReads files (program >>= onward) ↔ NeverReads files program ∧
      ∀ result, outcome files program = .ok result → NeverReads files (onward result) := by
  unfold NeverReads
  rw [ExceptT.run_bind, Program.answered_bind, files_stay]
  constructor
  · intro ⟨first, rest⟩
    refine ⟨first, fun result ended => ?_⟩
    change (Program.exec _ program.run files).1 = _ at ended
    rw [ended] at rest
    exact rest
  · intro ⟨first, rest⟩
    refine ⟨first, ?_⟩
    cases ended : (Program.exec FileSystem.perform program.run files).1 with
    | error failure => exact trivial
    | ok result => exact rest result ended

end Running

/-! ## The check -/

theorem plain_names (place : Place) : ∀ name ∈ place.map FileName.name, Plain name := by
  intro name member
  obtain ⟨entry, _, same⟩ := List.mem_map.mp member
  rw [← same]
  exact ⟨entry.nonempty, entry.noSlash⟩

theorem names_prefix_iff (base place : Place) :
    base.map FileName.name <+: place.map FileName.name ↔ base <+: place := by
  constructor
  · intro before
    obtain ⟨front, isFront, same⟩ := List.prefix_map_iff.mp before
    have injective : Function.Injective FileName.name := fun _ _ => file_name_inj
    rw [injective.list_map same]
    exact isFront
  · intro before
    exact before.map FileName.name

def normalOf (place : Place) (slash : Bool) : NormalPath where
  names := place.map FileName.name
  slash := slash && !place.isEmpty
  plain := plain_names place
  noDots := by
    intro name member
    obtain ⟨entry, _, rfl⟩ := List.mem_map.mp member
    exact ⟨entry.notDot, entry.notDotDot⟩
  root := by
    intro root
    rw [List.map_eq_nil_iff.mp root]
    exact Bool.and_false slash

theorem weak_text (place : Place) (slash : Bool) :
    FileSystem.weakText (place, slash) = (normalOf place slash).text := by
  cases place with
  | nil => cases slash <;> rfl
  | cons name names => cases slash <;> simp [FileSystem.weakText, FileSystem.textOf, normalOf,
      absolutePath, NormalPath.text, NormalPath.parts, spelled]

theorem text_of (place : Place) : FileSystem.textOf place = (normalOf place false).text := by
  rw [← weak_text]
  exact (List.append_nil _).symm

/-- Below any root but `/` the check is containment. -/
theorem starts_path_place {base : Place} (below : base ≠ []) (place : Place) (slash : Bool) :
    StartsPath (FileSystem.textOf base) (FileSystem.weakText (place, slash)) ↔ base <+: place := by
  have inner : (normalOf base false).names ≠ [] := by simpa [normalOf] using below
  rw [text_of, weak_text, NormalPath.starts_below_iff inner, NormalPath.parts_prefix_iff rfl]
  exact names_prefix_iff base place

theorem safe_below {base place : Place} {slash : Bool}
    (starts : StartsPath (FileSystem.textOf base) (FileSystem.weakText (place, slash))) :
    base <+: place := by
  by_cases root : base = []
  · rw [root]
    exact List.nil_prefix
  · exact (starts_path_place root place slash).mp starts

section Requests

open StaticFileHandler

variable {files : FileSystem} {pathPrefix baseDir path : Bytes}

/-- The check is one of texts, whoever answers. -/
theorem exec_safe {World : Type} {perform : (call : StaticCall) → World → call.Answer × World}
    {first next last : World} {base req : Bytes}
    (root : perform (.canonical baseDir) first = (.ok base, next))
    (target : perform (.weaklyCanonical path) next = (.ok req, last)) :
    Program.exec perform (isPathSafe baseDir path).run first =
      (.ok (decide (StartsPath base req)), last) := by
  have rooted : Program.exec perform (canonical baseDir).run first = (.ok base, next) := by
    change (id (perform (.canonical baseDir) first).1, (perform (.canonical baseDir) first).2) = _
    rw [root]
    rfl
  have targeted : Program.exec perform (weaklyCanonical path).run next = (.ok req, last) := by
    change (id (perform (.weaklyCanonical path) next).1,
      (perform (.weaklyCanonical path) next).2) = _
    rw [target]
    rfl
  rw [isPathSafe, ExceptT.run_bind, Program.exec_bind, rooted]
  change Program.exec perform (weaklyCanonical path >>= _).run next = _
  rw [ExceptT.run_bind, Program.exec_bind, targeted]
  change Program.exec perform (ExceptT.run (if _ then _ else _)) last = _
  split_ifs with differs
  · have unsafePath : ¬ StartsPath base req := fun starts => differs starts.1
    rw [decide_eq_false unsafePath]
    rfl
  · have starts : (decide (req.drop base.length = []) ||
        decide ((req.drop base.length).head? = some '/')) = decide (StartsPath base req) := by
      rw [← Bool.decide_or]
      exact decide_eq_decide.mpr (and_iff_right (not_not.mp differs)).symm
    exact congrArg (fun safe => (Except.ok safe, last)) starts

theorem outcome_safe {base place : Place} {slash : Bool}
    (resolved : files.resolve baseDir = .ok base)
    (weak : files.weakPlace path = .ok (place, slash)) :
    outcome files (isPathSafe baseDir path) =
      .ok (decide (StartsPath (FileSystem.textOf base) (FileSystem.weakText (place, slash)))) := by
  have root : FileSystem.perform (.canonical baseDir) files =
      (.ok (FileSystem.textOf base), files) := by
    change (files.canonical baseDir, files) = _
    rw [FileSystem.canonical, resolved]
    rfl
  have target : FileSystem.perform (.weaklyCanonical path) files =
      (.ok (FileSystem.weakText (place, slash)), files) := by
    change (files.weaklyCanonical path, files) = _
    rw [FileSystem.weaklyCanonical, weak]
    rfl
  exact congrArg Prod.fst (exec_safe root target)

/-- A regular file is read whole or not at all. -/
theorem read_whole {place : Place} {contents content : Bytes} {readable : Bool}
    (resolved : files.resolve path = .ok place)
    (isFile : files.node place = some (.file contents readable))
    (ended : outcome files (StaticFileHandler.readFile path) = .ok (some content)) : content = contents := by
  rw [StaticFileHandler.readFile] at ended
  obtain ⟨opened, openEnded, rest⟩ := outcome_ok ended
  have opening : files.answer (.openAtEnd path) = opened := Except.ok.inj openEnded
  have found : (files.resolve path).toOption.bind files.node =
      some (.file contents readable) := by
    rw [resolved]
    exact isFile
  cases readable with
  | false =>
      simp only [FileSystem.answer, found] at opening
      rw [← opening] at rest
      cases rest
  | true =>
      simp only [FileSystem.answer, found] at opening
      rw [← opening] at rest
      change outcome files (if _ then _ else _) = _ at rest
      split_ifs at rest with large
      · cases rest
      · have whole : files.answer (.readBytes path contents.length) = some content :=
          Except.ok.inj rest
        have answered : files.answer (.readBytes path contents.length) = some contents := by
          simp only [FileSystem.answer, found, Nat.le_refl, List.take_length]
          rfl
        exact Option.some.inj (whole.symm.trans answered)

theorem regular_file (regular : outcome files (isRegularFile path) = .ok true) :
    ∃ place contents readable, files.resolve path = .ok place ∧
      files.node place = some (.file contents readable) := by
  change (files.status path).map _ = _ at regular
  rw [FileSystem.status] at regular
  cases resolved : files.resolve path with
  | error failure =>
      rw [resolved] at regular
      cases failure <;> cases regular
  | ok place =>
      rw [resolved] at regular
      simp only [Except.map, Except.ok.injEq] at regular
      cases found : files.node place with
      | none =>
          rw [found] at regular
          cases regular
      | some node =>
          rw [found] at regular
          cases node with
          | file contents readable => exact ⟨place, contents, readable, rfl, found⟩
          | directory => cases regular
          | link target => cases regular
          | special => cases regular

/-- What has been answered with success has passed every check. -/
theorem served {request : HttpRequest} {response : HttpResponse}
    (ended : outcome files (handleRequest pathPrefix baseDir request) = .ok response)
    (success : response.status = .ok) :
    let filePath := filePathOf pathPrefix baseDir request.path
    outcome files (isPathSafe baseDir filePath) = .ok true ∧
      outcome files (isRegularFile filePath) = .ok true ∧
      outcome files (StaticFileHandler.readFile filePath) = .ok (some response.body) := by
  intro filePath
  rw [handleRequest] at ended
  by_cases get : request.method = "GET".toList
  · rw [if_neg (not_not.mpr get)] at ended
    obtain ⟨safe, isSafe, afterCheck⟩ := outcome_ok ended
    cases safe with
    | false =>
        cases afterCheck
        cases success
    | true =>
        obtain ⟨found, _, afterExists⟩ := outcome_ok afterCheck
        cases found with
        | false =>
            cases afterExists
            cases success
        | true =>
            obtain ⟨directory, _, afterDirectory⟩ := outcome_ok afterExists
            cases directory with
            | true =>
                cases afterDirectory
                cases success
            | false =>
                obtain ⟨regular, isRegular, afterRegular⟩ := outcome_ok afterDirectory
                cases regular with
                | false =>
                    cases afterRegular
                    cases success
                | true =>
                    obtain ⟨_, _, afterSize⟩ := outcome_ok afterRegular
                    obtain ⟨content, isRead, last⟩ := outcome_ok afterSize
                    cases content with
                    | none =>
                        cases last
                        cases success
                    | some content =>
                        cases last
                        exact ⟨isSafe, isRegular, isRead⟩
  · rw [if_pos get] at ended
    cases ended
    cases success

/-- The check looks into no file, and after it has failed nothing does. -/
theorem refused {request : HttpRequest} (get : request.method = "GET".toList)
    (unsafePath : outcome files (isPathSafe baseDir
      (filePathOf pathPrefix baseDir request.path)) = .ok false) :
    outcome files (handleRequest pathPrefix baseDir request) =
        .ok (refusal .forbidden "403 Forbidden".toList) ∧
      NeverReads files (handleRequest pathPrefix baseDir request) := by
  rw [handleRequest, if_neg (not_not.mpr get)]
  constructor
  · rw [outcome_bind, unsafePath]
    rfl
  · rw [never_reads_bind]
    constructor
    · rw [isPathSafe, never_reads_bind]
      refine ⟨⟨rfl, trivial⟩, fun base _ => ?_⟩
      rw [never_reads_bind]
      refine ⟨⟨rfl, trivial⟩, fun req _ => ?_⟩
      split_ifs <;> exact trivial
    · intro safe isSafe
      rw [unsafePath] at isSafe
      cases isSafe
      exact trivial

end Requests

open StaticFileHandler in
/-- What is served is the whole of a file below the root, and what leads anywhere
else is refused without a look at it. -/
theorem serves_below_root (files : FileSystem) (pathPrefix baseDir : Bytes) (base : Place)
    (resolved : files.resolve baseDir = .ok base) (request : HttpRequest) :
    (∀ response, outcome files (handleRequest pathPrefix baseDir request) = .ok response →
      response.status = .ok →
      ∃ place readable, files.resolve (filePathOf pathPrefix baseDir request.path) = .ok place ∧
        base <+: place ∧ files.node place = some (.file response.body readable)) ∧
    (∀ place slash, request.method = "GET".toList →
      files.weakPlace (filePathOf pathPrefix baseDir request.path) = .ok (place, slash) →
      ¬ base <+: place →
      outcome files (handleRequest pathPrefix baseDir request) =
          .ok (refusal .forbidden "403 Forbidden".toList) ∧
        NeverReads files (handleRequest pathPrefix baseDir request)) := by
  constructor
  · intro response ended success
    obtain ⟨isSafe, isRegular, isRead⟩ := served ended success
    obtain ⟨place, contents, readable, leads, isFile⟩ := regular_file isRegular
    have weak : files.weakPlace (filePathOf pathPrefix baseDir request.path) =
        .ok (place, false) := by
      rw [FileSystem.weakPlace, leads]
    rw [outcome_safe resolved weak, Except.ok.injEq, decide_eq_true_eq] at isSafe
    rw [← read_whole leads isFile isRead] at isFile
    exact ⟨place, readable, leads, safe_below isSafe, isFile⟩
  · intro place slash get weak outside
    apply refused get
    rw [outcome_safe resolved weak, decide_eq_false]
    intro starts
    exact outside (safe_below starts)

def rootName : FileName := ⟨"www".toList, by decide, by decide, by decide, by decide⟩

def siblingName : FileName := ⟨"www2".toList, by decide, by decide, by decide, by decide⟩

def pageName : FileName := ⟨"a".toList, by decide, by decide, by decide, by decide⟩

def siblingFiles : FileSystem where
  node := fun place =>
    if place = [] ∨ place = [rootName] ∨ place = [siblingName] then some .directory
    else if place = [rootName, pageName] then some (.link "../www2/a".toList)
    else if place = [siblingName, pageName] then some (.file "secret".toList true)
    else none
  root := rfl
  workingDirectory := []
  unresolved := fun _ => .error .missing

def pageRequest : HttpRequest where
  method := "GET".toList
  path := "/static/a".toList
  version := "HTTP/1.1".toList
  headers := OrderedMap.empty
  body := []

theorem serves_below_root_sibling :
    outcome siblingFiles (StaticFileHandler.handleRequest "/static".toList "/www".toList
        pageRequest) = .ok (StaticFileHandler.refusal .forbidden "403 Forbidden".toList) ∧
      NeverReads siblingFiles (StaticFileHandler.handleRequest "/static".toList "/www".toList
        pageRequest) :=
  (serves_below_root siblingFiles "/static".toList "/www".toList [rootName] (by decide +kernel)
    pageRequest).2 [siblingName, pageName] false rfl (by decide +kernel) (by decide)

end RestfulWebserver.Static
