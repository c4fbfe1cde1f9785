import RestfulWebserver.Entity.Fresh
import RestfulWebserver.Entity.PositiveIds
import RestfulWebserver.Library.Json

/-!
# What the JSON answers say

An id goes into the text of an answer as it is. The text is JSON and says the id
where nothing in it would have had to be escaped, and `check_id` does not ask for
that.
-/

namespace RestfulWebserver.Entity

open RestfulWebserver.Library RestfulWebserver.Http

/-- The id is text in UTF-8, without quotes, backslashes and control characters. -/
def PlainInJson (id : Bytes) : Prop := ∃ code, id = encodeUtf8 code ∧ Json.Unescaped code

theorem plain_of_digits {id : Bytes} (digits : ∀ byte ∈ id, byte.isDigit = true) :
    PlainInJson id := by
  have ranges : ∀ byte ∈ id, 48 ≤ byte.toNat ∧ byte.toNat ≤ 57 := by
    intro byte member
    have digit := digits byte member
    simp only [Char.isDigit, Bool.and_eq_true, decide_eq_true_eq] at digit
    exact ⟨digit.1, digit.2⟩
  refine ⟨id, (encode_ascii ?_).symm, ?_⟩
  · intro byte member
    have range := ranges byte member
    omega
  · intro byte member
    have range := ranges byte member
    refine ⟨?_, ?_, by omega⟩
    · rintro rfl
      exact absurd range (by decide)
    · rintro rfl
      exact absurd range (by decide)

/-- The names that a path goes through are as plain as the path. -/
theorem plain_components {text : Bytes} (plain : PlainInJson text) :
    ∀ name ∈ components text, PlainInJson name := by
  obtain ⟨code, rfl, unescaped⟩ := plain
  induction code using slash_induction with
  | plain code noSlash =>
      intro name member
      have absent : '/' ∉ encodeUtf8 code :=
        fun inside => noSlash (ascii_encoded (by decide) inside)
      exact ⟨code, component_whole absent member, unescaped⟩
  | joined front rest first later =>
      obtain ⟨inFront, behind⟩ := List.forall_mem_append.mp unescaped
      have slash : encodeUtf8 (front ++ '/' :: rest) = encodeUtf8 front ++ '/' :: encodeUtf8 rest := by
        rw [encode_append]
        rfl
      intro name member
      rw [slash, components_slash] at member
      rcases List.mem_append.mp member with before | after
      · exact first inFront name before
      · exact later (List.forall_mem_cons.mp behind).2 name after

theorem plain_no_null {id : Bytes} (plain : PlainInJson id) : '\x00' ∉ id := by
  obtain ⟨code, rfl, unescaped⟩ := plain
  intro member
  have large := (unescaped _ (ascii_encoded (by decide) member)).2.2
  exact absurd large (by decide)

theorem plain_said : SaidOfNames PlainInJson where
  noNull _ := plain_no_null
  numbers _ numeral := plain_of_digits numeral.digits
  names id starts plain := by
    obtain ⟨blanks, sign, digits, rest, rfl, _, _, _, positive⟩ := starts
    obtain ⟨digit, others, split⟩ := List.exists_cons_of_ne_nil positive.nonempty
    have isDigit := positive.digits digit (by simp [split])
    have inside : digit ∈ blanks ++ (sign ++ (digits ++ rest)) := by simp [split]
    obtain ⟨name, isName, _⟩ := component_of_mem inside
      (by rintro rfl; exact absurd isDigit (by decide))
      (by rintro rfl; exact absurd isDigit (by decide))
    have some := List.ne_nil_of_mem isName
    refine ⟨_, _, (List.dropLast_append_getLast some).symm, ?_⟩
    exact plain_components plain _ (List.getLast_mem some)

/-! ## What a body says, over either file system -/

/-- How programs of a file system run over its states. -/
structure Running (M : Type → Type) [Monad M] [MonadExcept Thrown M] (World : Type) where
  run : {Result : Type} → M Result → World → Except Thrown Result × World
  pure_ran : ∀ {Result : Type} {result last : Result} {world next : World},
    run (pure result) world = (.ok last, next) → last = result ∧ next = world
  throw_ran : ∀ {Result : Type} {thrown : Thrown} {result : Result} {world next : World},
    run (throw thrown) world ≠ (.ok result, next)
  bind_ran : ∀ {Result Other : Type} {program : M Result} {onward : Result → M Other}
    {world last : World} {result : Other}, run (program >>= onward) world = (.ok result, last) →
      ∃ first next, run program world = (.ok first, next) ∧
        run (onward first) next = (.ok result, last)

def onDisk : Running FileM Disk where
  run := Disk.runOn
  pure_ran := by
    intro Result result last world next ran
    cases ran
    exact ⟨rfl, rfl⟩
  throw_ran := by
    intro Result thrown result world next ran
    cases ran
  bind_ran := Disk.bind_ran

def onMock : Running MockM MockData where
  run program data := program.run.run data
  pure_ran := by
    intro Result result last world next ran
    cases ran
    exact ⟨rfl, rfl⟩
  throw_ran := by
    intro Result thrown result world next ran
    cases ran
  bind_ran := by
    intro Result Other program onward data last result ran
    cases first : program.run.run data with
    | mk outcome next =>
        cases outcome with
        | error thrown =>
            rw [MockFilesystem.bind_error first] at ran
            cases ran
        | ok value =>
            rw [MockFilesystem.bind_ok first] at ran
            exact ⟨value, next, rfl, ran⟩

section Saying

variable {M : Type → Type} [Monad M] [MonadExcept Thrown M] {World : Type}

/-- The strings of an array, and the string under `id`. -/
def arrayIn (body : Bytes) : Option (List Bytes) := (Json.decode body).bind Json.strings

def idIn (body : Bytes) : Option Bytes :=
  ((Json.decode body).bind (Json.member "id".toList)).bind Json.text

/-- A listing says what `list_ids` returned, and the other answers say under which
id the body of the request was written. -/
structure BodyTells (running : Running M World) (filesystem : Filesystem M) (baseDir : Bytes)
    (request : HttpRequest) (world : World) (body : Bytes) : Prop where
  listed : request.method = "GET".toList → (entityParts request.path).2 = [] →
    ∃ ids next, running.run (filesystem.listIds (entityOf baseDir request)) world =
      (.ok ids, next) ∧ arrayIn body = some ids
  posted : request.method = "POST".toList → ∃ id numbered next,
    running.run (filesystem.nextId (entityOf baseDir request)) world = (.ok id, numbered) ∧
      running.run (filesystem.write (entityOf baseDir request) id request.body) numbered =
        (.ok (), next) ∧ idIn body = some id
  put : request.method = "PUT".toList → ∃ next,
    running.run (filesystem.write (entityOf baseDir request) (entityParts request.path).2
        request.body) world = (.ok (), next) ∧ idIn body = some (entityParts request.path).2

theorem encode_quoted (text : Code) :
    encodeUtf8 (Json.quoted text) = "\"".toList ++ encodeUtf8 text ++ "\"".toList := by
  rw [Json.quoted, encode_cons, encode_append]
  rfl

theorem encode_listed (texts : List Code) :
    encodeUtf8 (Json.listed texts) = (((texts.map encodeUtf8).map fun id =>
      "\"".toList ++ id ++ "\"".toList).intersperse ",".toList).flatten := by
  induction texts with
  | nil => rfl
  | cons text texts ih =>
      cases texts with
      | nil =>
          have alone : Json.listed [text] = Json.quoted text := by simp [Json.listed]
          rw [alone, encode_quoted]
          simp
      | cons next texts =>
          have comma : encodeUtf8 (',' :: Json.listed (next :: texts)) =
              ",".toList ++ encodeUtf8 (Json.listed (next :: texts)) := rfl
          rw [Json.listed_cons, encode_append, encode_quoted, comma, ih]
          simp

theorem plain_texts {ids : List Bytes} (plain : ∀ id ∈ ids, PlainInJson id) :
    ∃ texts : List Code, ids = texts.map encodeUtf8 ∧ ∀ text ∈ texts, Json.Unescaped text := by
  induction ids with
  | nil => exact ⟨[], rfl, List.forall_mem_nil _⟩
  | cons id ids ih =>
      obtain ⟨⟨text, rfl, first⟩, later⟩ := List.forall_mem_cons.mp plain
      obtain ⟨texts, rfl, rest⟩ := ih later
      exact ⟨text :: texts, rfl, List.forall_mem_cons.mpr ⟨first, rest⟩⟩

theorem array_in_listing {ids : List Bytes} (plain : ∀ id ∈ ids, PlainInJson id) :
    arrayIn (listing ids) = some ids := by
  obtain ⟨texts, rfl, unescaped⟩ := plain_texts plain
  have written : listing (texts.map encodeUtf8) =
      encodeUtf8 ('[' :: (Json.listed texts ++ [']'])) := by
    rw [encode_cons, encode_append, encode_listed, listing, List.append_assoc]
    rfl
  rw [arrayIn, written, Json.decode_listed unescaped]
  exact Json.strings_listed texts

theorem id_in_response {id : Bytes} (plain : PlainInJson id) :
    idIn (idResponse id).body = some id := by
  obtain ⟨code, rfl, unescaped⟩ := plain
  have written : (idResponse (encodeUtf8 code)).body = encodeUtf8 (Json.single "id".toList code) := by
    have front : encodeUtf8 (Json.single "id".toList code) =
        "\x7b\"id\": ".toList ++ encodeUtf8 (Json.quoted code ++ ['\x7d']) := rfl
    rw [front, encode_append, encode_quoted, idResponse, jsonResponse]
    simp only [List.append_assoc]
    rfl
  rw [idIn, written, Json.decode_single (forall_of_all (by decide)) unescaped]
  rfl

/-- An answer that did not come from a `catch` says what it should, where every id
in it is plain. -/
theorem served_tells {running : Running M World} {filesystem : Filesystem M} {baseDir : Bytes}
    {request : HttpRequest} {response : HttpResponse} {world next : World}
    (served : running.run (EntityHandler.serveOn filesystem baseDir request) world =
      (.ok response, next))
    (listed : request.method = "GET".toList → (entityParts request.path).2 = [] → ∀ ids listed,
      running.run (filesystem.listIds (entityOf baseDir request)) world = (.ok ids, listed) →
        ∀ id ∈ ids, PlainInJson id)
    (numbered : ∀ id numbered, running.run (filesystem.nextId (entityOf baseDir request)) world =
      (.ok id, numbered) → StartsPositive id → PlainInJson id)
    (written : ∀ id before after, running.run (filesystem.write (entityOf baseDir request) id
      request.body) before = (.ok (), after) → StartsPositive id)
    (puts : PutsGood PlainInJson request) :
    BodyTells running filesystem baseDir request world response.body := by
  unfold EntityHandler.serveOn at served
  constructor
  · intro get noId
    have notPost : request.method ≠ "POST".toList := by rw [get]; decide
    simp only [if_neg notPost, if_pos get, if_pos noId] at served
    obtain ⟨ids, after, ran, rest⟩ := running.bind_ran served
    obtain ⟨rfl, rfl⟩ := running.pure_ran rest
    exact ⟨ids, _, ran, array_in_listing (listed get noId ids _ ran)⟩
  · intro post
    simp only [if_pos post] at served
    obtain ⟨id, before, ran, rest⟩ := running.bind_ran served
    obtain ⟨done, after, wrote, last⟩ := running.bind_ran rest
    obtain ⟨rfl, rfl⟩ := running.pure_ran last
    have plain := numbered id before ran (written id before _ wrote)
    exact ⟨id, before, _, ran, wrote, id_in_response plain⟩
  · intro put
    have notPost : request.method ≠ "POST".toList := by rw [put]; decide
    have notGet : request.method ≠ "GET".toList := by rw [put]; decide
    simp only [if_neg notPost, if_neg notGet, if_pos put] at served
    by_cases noId : (entityParts request.path).2 = []
    · rw [if_pos noId] at served
      exact absurd served running.throw_ran
    · rw [if_neg noId] at served
      obtain ⟨done, after, wrote, last⟩ := running.bind_ran served
      obtain ⟨rfl, rfl⟩ := running.pure_ran last
      exact ⟨_, wrote, id_in_response (puts put (written _ _ _ wrote))⟩

end Saying

/-! ## Both file systems -/

theorem number_plain {value : Int} (starts : StartsPositive (RealFilesystem.intToString value)) :
    PlainInJson (RealFilesystem.intToString value) :=
  plain_of_digits (new_id_positive starts).digits

section OnDisk

open Disk

variable {baseDir : Bytes} {entity : EntityPayload} {disk next : Disk}

/-- What is listed lies as a file in the directory of the entity. -/
theorem listed_files {ids : List Bytes}
    (ran : runOn (RealFilesystem.listIds entity) disk = (.ok ids, next)) :
    ∀ id ∈ ids, ∃ contents, disk.tree.lookup (placeOf entity ++ [id]) = some (some contents) := by
  rw [RealFilesystem.listIds, run_bind_ok (run_exists _ _)] at ran
  cases found : (disk.tree.stat entity.makePath).isOk with
  | false =>
      rw [found] at ran
      cases ran
      exact List.forall_mem_nil _
  | true =>
      rw [found] at ran
      obtain ⟨entries, shown, iterated, tested⟩ := bind_ran ran
      have sameTree : shown.tree = disk.tree := congrArg (fun ran => ran.2.tree) iterated.symm
      rw [run_regular_files, sameTree] at tested
      cases tested
      intro id member
      obtain ⟨entry, isFile, rfl⟩ := List.mem_map.mp member
      exact (holds_file_iff _ _ _).mp (List.mem_filter.mp isFile).2

theorem written_starts {id data : Bytes} {before after : Disk}
    (wrote : runOn (RealFilesystem.write entity id data) before = (.ok (), after)) :
    StartsPositive id := by
  by_contra invalid
  rw [run_write_invalid data (mt (valid_id_iff id).mp invalid)] at wrote
  cases wrote

theorem numbered_plain {id : Bytes}
    (ran : runOn (RealFilesystem.nextId entity) disk = (.ok id, next)) (starts : StartsPositive id) :
    PlainInJson id := by
  obtain ⟨ids, listed, _, last⟩ := bind_ran ran
  cases last
  exact number_plain starts

/-- What a `GET` without an id lists is, by its path, the root or below it. -/
def ListsInside (baseDir : Bytes) (request : HttpRequest) : Prop :=
  request.method = "GET".toList → (entityParts request.path).2 = [] →
    Within (locate (cString baseDir)) (locate (cString (entityOf baseDir request).makePath))

theorem names_walk (location : Location) {path : List Bytes}
    (meant : ∀ component ∈ path, component ≠ [] ∧ component ≠ ".".toList) :
    (walk location path).names = Tree.onward location.names path := by
  induction path using List.reverseRecOn with
  | nil => rfl
  | append_singleton path component ih =>
      obtain ⟨before, last⟩ := List.forall_mem_append.mp meant
      obtain ⟨nonempty, notDot⟩ := last component (List.mem_singleton_self component)
      rw [walk_snoc, Tree.onward_append, ← ih before]
      change _ = Tree.enter (walk location path).names component
      by_cases up : component = dotDot
      · rw [up, Tree.enter, if_pos rfl]
        by_cases top : (walk location path).names = []
        · rw [(enter_above _ top).2, top]
          rfl
        · exact (enter_back _ top).2
      · rw [(enter_name _ up).2, Tree.enter_name nonempty notDot up]

theorem place_of_location (path : Bytes) :
    Tree.placeAt path = (locate (cString path)).names := by
  have meant : ∀ component ∈ components (cString path), component ≠ [] ∧ component ≠ ".".toList := by
    intro component member
    have kept := (List.mem_filter.mp member).2
    simpa only [Bool.and_eq_true, decide_eq_true_eq] using kept
  rw [locate, names_walk _ meant]
  rfl

theorem disk_tells {request : HttpRequest} {response : HttpResponse}
    (files : FilesGood PlainInJson baseDir disk)
    (puts : PutsGood PlainInJson request) (inside : ListsInside baseDir request)
    (ran : runOn (EntityHandler.handleRequest baseDir request) disk = (.ok response, next))
    (isOk : response.status = .ok) :
    ∃ created, runOn (RealFilesystem.create baseDir) disk = (.ok (), created) ∧
      BodyTells onDisk realFilesystem baseDir request created response.body := by
  obtain ⟨done, created, made, locked⟩ := bind_ran ran
  refine ⟨created, made, ?_⟩
  have createdGood : FilesGood PlainInJson baseDir created := by
    have same : (perform (.createDirectories baseDir) disk).2 = created := congrArg Prod.snd made
    have kept := @perform_good _ baseDir (.createDirectories baseDir) _ trivial files
    rwa [same] at kept
  cases served : runOn (EntityHandler.serve baseDir request) created with
  | mk outcome last =>
      rw [run_locked served] at locked
      cases locked
      rw [answer_ok rfl isOk, ← EntityHandler.serve_on_real] at served
      apply @served_tells _ _ _ _ onDisk realFilesystem _ _ _ _ _ served
      · intro get noId ids listed ran id member
        obtain ⟨contents, lies⟩ := listed_files ran id member
        have within := (within_iff _ _).mp (inside get noId)
        obtain ⟨below, split⟩ := within.2.2
        rw [placeOf, place_of_location, ← split, ← place_of_location, List.append_assoc] at lies
        exact createdGood below id contents lies
      · exact fun id numbered ran => numbered_plain ran
      · exact fun id before after wrote => written_starts wrote
      · exact puts

end OnDisk

theorem mock_tells {baseDir : Bytes} {data next : MockData} {request : HttpRequest}
    {response : HttpResponse} (ids : MockFilesystem.IdsGood PlainInJson data)
    (puts : PutsGood PlainInJson request)
    (ran : EntityHandler.handleMock baseDir request data = (response, next))
    (isOk : response.status = .ok) :
    BodyTells onMock mockFilesystem baseDir request data response.body := by
  cases served : onMock.run (EntityHandler.serveOn mockFilesystem baseDir request) data with
  | mk outcome last =>
      have same : EntityHandler.answer outcome = response := by
        have first := congrArg Prod.fst ran
        change EntityHandler.answer (onMock.run
          (EntityHandler.serveOn mockFilesystem baseDir request) data).1 = response at first
        rw [served] at first
        exact first
      rw [← same] at isOk ⊢
      rw [answer_ok rfl isOk] at served
      apply served_tells served
      · intro _ _ listed after ran id member
        have all := (MockFilesystem.run_list data (entityOf baseDir request)).symm.trans ran
        cases all
        rw [OrderedMap.mem_keys_iff, OrderedMap.contains_iff] at member
        obtain ⟨contents, found⟩ := member
        exact ids _ id contents found
      · intro id numbered ran starts
        obtain ⟨listed, after, _, last⟩ := onMock.bind_ran ran
        cases last
        exact number_plain starts
      · intro id before after wrote
        by_contra invalid
        change (MockFilesystem.write _ id request.body).run.run before = _ at wrote
        rw [MockFilesystem.write,
          MockFilesystem.check_id_invalid (mt (valid_id_iff id).mp invalid)] at wrote
        cases wrote
      · exact puts

/-- Where no `PUT` has an id that `check_id` lets pass and JSON would escape, every answer
with status 200 says in JSON what was listed below the root, or under which id was written. -/
theorem json_answers_decode (baseDir : Bytes) (disk : Disk)
    (emptyBase : EmptyBase baseDir disk.tree) (before : List HttpRequest)
    (request : HttpRequest) (plain : ∀ asked ∈ before ++ [request], PutsGood PlainInJson asked)
    (inside : ListsInside baseDir request) :
    (∀ response next, Disk.runOn (EntityHandler.handleRequest baseDir request)
        (EntityHandler.handleAll baseDir before disk).2 = (.ok response, next) →
      response.status = .ok → ∃ created,
        Disk.runOn (RealFilesystem.create baseDir)
          (EntityHandler.handleAll baseDir before disk).2 = (.ok (), created) ∧
        BodyTells onDisk realFilesystem baseDir request created response.body) ∧
    ∀ response next, EntityHandler.handleMock baseDir request
        (EntityHandler.mockAll baseDir before OrderedMap.empty).2 = (response, next) →
      response.status = .ok → BodyTells onMock mockFilesystem baseDir request
        (EntityHandler.mockAll baseDir before OrderedMap.empty).2 response.body := by
  obtain ⟨earlier, last⟩ := List.forall_mem_append.mp plain
  have puts := last request (List.mem_singleton_self request)
  constructor
  · intro response next ran isOk
    exact disk_tells (stored_good plain_said emptyBase earlier) puts inside ran isOk
  · intro response next ran isOk
    exact mock_tells (mock_good plain_said earlier empty_ids_good) puts ran isOk

def twoItems : List HttpRequest :=
  [itemMessage "PUT".toList "a".toList (some twelveName),
    itemMessage "POST".toList "b".toList none,
    itemMessage "POST".toList "c".toList none,
    itemMessage "DELETE".toList [] (some twelveName)]

/-- A listing after a `PUT`, two `POST` requests and a deletion. -/
theorem two_items_decode :
    arrayIn "[\"14\",\"13\"]".toList = some ["14".toList, "13".toList] := by
  have twelve : PlainInJson "12".toList := plain_of_digits (forall_of_all (by decide))
  have ran : (Disk.runOn (EntityHandler.handleRequest "/data".toList
      (itemMessage "GET".toList [] none))
      (EntityHandler.handleAll "/data".toList twoItems (emptyDisk "data".toList)).2).1 =
        .ok (jsonResponse "[\"14\",\"13\"]".toList) := by rfl
  have answers := json_answers_decode "/data".toList (emptyDisk "data".toList) empty_disk_base
    twoItems (itemMessage "GET".toList [] none)
    (by
      intro asked member
      simp only [twoItems, List.cons_append, List.nil_append, List.mem_cons, List.not_mem_nil,
        or_false] at member
      rcases member with rfl | rfl | rfl | rfl | rfl
      · exact fun _ _ => twelve
      all_goals exact fun put => absurd put (by decide))
    (by
      intro _ _
      rw [within_iff]
      decide +kernel)
  obtain ⟨created, made, tells⟩ := answers.1 _ _ (Prod.ext ran rfl) rfl
  obtain ⟨ids, next, listed, said⟩ := tells.listed rfl rfl
  have isCreated := congrArg Prod.snd made
  have shown : (Disk.runOn (RealFilesystem.listIds ⟨"/data".toList, "x".toList⟩)
      (Disk.runOn (RealFilesystem.create "/data".toList)
        (EntityHandler.handleAll "/data".toList twoItems (emptyDisk "data".toList)).2).2).1 =
      .ok ["14".toList, "13".toList] := by rfl
  rw [isCreated] at shown
  have same : Except.ok ids = .ok ["14".toList, "13".toList] :=
    (congrArg Prod.fst listed).symm.trans shown
  cases same
  exact said

def quoteName : FileName := ⟨"1\"".toList, by decide, by decide, by decide, by decide⟩

/-- `PUT /api/x/1"` is answered with a text that is no JSON. -/
theorem quote_breaks_json :
    ¬ ∀ (baseDir : Bytes) (disk : Disk), EmptyBase baseDir disk.tree →
      ∀ (before : List HttpRequest) (request : HttpRequest) (response : HttpResponse) (next : Disk),
        Disk.runOn (EntityHandler.handleRequest baseDir request)
          (EntityHandler.handleAll baseDir before disk).2 = (.ok response, next) →
        response.status = .ok → ∃ created,
          Disk.runOn (RealFilesystem.create baseDir)
            (EntityHandler.handleAll baseDir before disk).2 = (.ok (), created) ∧
          BodyTells onDisk realFilesystem baseDir request created response.body := by
  intro always
  have ran : (Disk.runOn (EntityHandler.handleRequest "/data".toList
      (itemMessage "PUT".toList "a".toList (some quoteName)))
      (emptyDisk "data".toList)).1 = .ok (idResponse "1\"".toList) := by rfl
  have noJson : idIn (idResponse "1\"".toList).body = none := by
    let body : Code := "\x7b\"id\": \"1\"\"\x7d".toList
    have ascii : (idResponse "1\"".toList).body = encodeUtf8 body := by decide +kernel
    have unread : Json.readValue (body.length + 1) (Json.skip body) = none :=
      Option.isNone_iff_eq_none.mp (by decide +kernel)
    rw [idIn, ascii, Json.decode, decode_encode]
    simp only [Option.bind_eq_bind, Option.bind_some, unread, Option.bind_none]
  obtain ⟨created, _, tells⟩ := always "/data".toList (emptyDisk "data".toList)
    empty_disk_base [] _ _ _ (Prod.ext ran rfl) rfl
  obtain ⟨_, _, said⟩ := tells.put rfl
  rw [noJson] at said
  cases said

end RestfulWebserver.Entity
