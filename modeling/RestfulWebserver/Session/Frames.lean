import RestfulWebserver.Http.WellFormed
import RestfulWebserver.Session.Framing

/-!
# How well-formed requests are framed

The framing loop finds exactly the request at the front of the buffer as soon as
all its bytes are there, and nothing before.
-/

namespace RestfulWebserver.Session

open RestfulWebserver.Library RestfulWebserver.Http

theorem find_lines_end {lines : List Bytes} (plain : ∀ line ∈ lines, PlainLine line)
    (nonempty : lines ≠ []) (rest : Bytes) :
    find headerEndMark (crlfLines lines ++ (crlf ++ rest)) =
      some ((crlfLines lines).length - 2) := by
  induction lines with
  | nil => exact absurd rfl nonempty
  | cons line lines ih =>
      have noReturn := (plain line List.mem_cons_self).2.1
      have first : crlfLines (line :: lines) ++ (crlf ++ rest) =
          line ++ ('\r' :: '\n' :: (crlfLines lines ++ (crlf ++ rest))) := by
        simp [crlfLines, crlf]
      have length : (crlfLines (line :: lines)).length = line.length + 2 + (crlfLines lines).length := by
        simp only [crlfLines, List.flatMap_cons, List.length_append]
        have two : crlf.length = 2 := rfl
        omega
      rw [first, @find_skip headerEndMark _ _ '\r' rfl noReturn, length]
      cases lines with
      | nil =>
          have front : headerEndMark <+: '\r' :: '\n' :: (crlfLines [] ++ (crlf ++ rest)) :=
            ⟨rest, rfl⟩
          rw [find_at_front front]
          simp [crlfLines]
      | cons next later =>
          have nextPlain := plain next (by simp)
          have inner := ih (fun other member => plain other (List.mem_cons_of_mem line member))
            (by simp)
          have longer : 2 ≤ (crlfLines (next :: later)).length := by
            simp only [crlfLines, List.flatMap_cons, List.length_append]
            have two : crlf.length = 2 := rfl
            omega
          rcases List.exists_cons_of_ne_nil nextPlain.1 with ⟨letter, others, split⟩
          have notReturn : letter ≠ '\r' := by
            intro same
            exact nextPlain.2.1 (by simp [split, same])
          have notAtReturn : ¬ headerEndMark <+:
              '\r' :: '\n' :: (crlfLines (next :: later) ++ (crlf ++ rest)) := by
            simp [headerEndMark, crlfLines, split, notReturn.symm]
          have notAtNewline : ¬ headerEndMark <+:
              '\n' :: (crlfLines (next :: later) ++ (crlf ++ rest)) := by
            simp [headerEndMark]
          rw [find_cons_of_absent notAtReturn, find_cons_of_absent notAtNewline, inner]
          simp only [Option.map_some, Option.some.injEq]
          omega

theorem keeps_connection {request : HttpRequest} (method : request.method ≠ [])
    (path : request.path ≠ []) (version : request.version = httpVersion)
    (notClose : request.headers.find? "Connection".toList ≠ some "close".toList) :
    endsConnection request = false := by
  have some : request.version ≠ [] := by
    rw [version]
    intro empty
    cases empty
  simp only [endsConnection, malformed, closeConnection, Bool.or_eq_false_iff,
    decide_eq_false_iff_not, not_not]
  exact ⟨⟨⟨⟨method, path⟩, some⟩, version⟩, notClose⟩

section Requests

variable (request : KeepAliveRequest)

theorem header_part_request (more : Bytes) :
    headerPart (request.bytes ++ more) = some request.head := by
  have shape : request.bytes ++ more = crlfLines (request.requestLine :: request.fieldLines) ++
      (crlf ++ (request.body ++ more)) := by
    simp [KeepAliveRequest.bytes, KeepAliveRequest.head]
  have located := find_lines_end (lines_plain request) (by simp) (request.body ++ more)
  have front : request.head <+: request.bytes ++ more := by
    simp [KeepAliveRequest.bytes, List.append_assoc]
  have size : request.head.length =
      (crlfLines (request.requestLine :: request.fieldLines)).length + 2 := by
    simp [KeepAliveRequest.head, crlf]
  have longer : 2 ≤ (crlfLines (request.requestLine :: request.fieldLines)).length := by
    simp only [crlfLines, List.flatMap_cons, List.length_append]
    have two : crlf.length = 2 := rfl
    omega
  have headEnd : (crlfLines (request.requestLine :: request.fieldLines)).length - 2 + 4 =
      request.head.length := by omega
  rw [headerPart, shape, located, Option.map_some, headEnd, ← shape,
    ← List.prefix_iff_eq_take.mp front]

theorem field_named_iff (field : Field) :
    contentLengthName <+: field.line ++ ['\r'] ↔ field.name = "Content-Length".toList := by
  have colonEnds : ∀ rest, EndsRun (fun byte => byte != ':') (':' :: rest) := fun rest =>
    ends_run_cons (by decide)
  have inName : ∀ byte ∈ field.name, (byte != ':') = true := by
    intro byte member
    simpa using (field.nameToken byte member).1
  have line : field.line ++ ['\r'] = field.name ++ (':' :: (field.value ++ ['\r'])) := by
    simp [Field.line]
  have named : ∀ rest, contentLengthName ++ rest = "Content-Length".toList ++ (':' :: rest) :=
    fun rest => rfl
  rw [line]
  constructor
  · rintro ⟨rest, same⟩
    have names := congrArg (List.takeWhile fun byte => byte != ':') same
    rw [named, take_while_run (forall_of_all (by decide)) (colonEnds _),
      take_while_run inName (colonEnds _)] at names
    exact names.symm
  · intro same
    exact ⟨field.value ++ ['\r'], by rw [named, same]⟩

theorem request_line_not_named : ¬ contentLengthName <+: request.requestLine ++ ['\r'] := by
  let inWord := fun byte : Char => byte != ':' && byte != ' '
  rintro ⟨rest, same⟩
  have named : contentLengthName ++ rest = "Content-Length".toList ++ (':' :: rest) := rfl
  have line : request.requestLine ++ ['\r'] = request.method ++
      (' ' :: (request.target ++ ' ' :: "HTTP/1.1\r".toList)) := by
    simp [KeepAliveRequest.requestLine]
  have inMethod : ∀ byte ∈ request.method, inWord byte = true := by
    intro byte member
    have token := request.methodToken byte member
    have notBlank : byte ≠ ' ' := by
      rintro rfl
      cases token.1
    simp [inWord, token.2, notBlank]
  have colonEnds : EndsRun inWord (':' :: rest) := ends_run_cons (by decide)
  have blankEnds : ∀ rest, EndsRun inWord (' ' :: rest) := fun rest => ends_run_cons (by decide)
  rw [named, line] at same
  have behind := congrArg (List.dropWhile inWord) same
  rw [drop_while_run (forall_of_all (by decide)) colonEnds,
      drop_while_run inMethod (blankEnds _)] at behind
  cases behind

theorem stoul_announced {value : Bytes} {length : Nat} (announces : AnnouncesLength value length)
    (bounded : length ≤ maxContentLength) :
    stoul ((value ++ ['\r']).dropWhile isBlank) = .ok length := by
  rcases announces with ⟨before, digits, after, rfl, blanks, nonempty, allDigits, rfl, trailing⟩
  have blankNotDigit : ∀ byte, isBlank byte = true → byte.isDigit = false := by
    intro byte blank
    simp only [isBlank, Bool.or_eq_true, decide_eq_true_eq] at blank
    rcases blank with rfl | rfl <;> decide
  have ends : EndsRun Char.isDigit (after ++ ['\r']) := by
    cases after with
    | nil => exact ends_run_cons (by decide)
    | cons byte after => exact ends_run_cons (blankNotDigit byte (trailing byte (by simp)))
  have stripped : (before ++ (digits ++ after) ++ ['\r']).dropWhile isBlank =
      digits ++ (after ++ ['\r']) := by
    rw [List.append_assoc, List.append_assoc]
    apply drop_while_run blanks
    rcases List.exists_cons_of_ne_nil nonempty with ⟨digit, others, split⟩
    rw [split]
    apply ends_run_cons
    cases blank : isBlank digit with
    | false => rfl
    | true =>
        have notDigit := blankNotDigit digit blank
        rw [allDigits digit (by simp [split])] at notDigit
        cases notDigit
  have small : maxContentLength ≤ ulongMax := by decide
  rw [stripped]
  exact @stoul_of_digits [] _ _ (by simp) nonempty allDigits ends (bounded.trans small)

/-- The scan over the field lines finds the length they all announce. -/
theorem scan_fields {fields : List Field} {length : Nat} (start : Nat)
    (bounded : length ≤ maxContentLength)
    (correct : ∀ field ∈ fields, field.name = "Content-Length".toList →
      AnnouncesLength field.value length) :
    scanContentLength ((fields.map Field.line).map (· ++ ['\r'])) start = .ok (some length) ∨
      scanContentLength ((fields.map Field.line).map (· ++ ['\r'])) start = .ok (some start) ∧
        ∀ field ∈ fields, field.name ≠ "Content-Length".toList := by
  induction fields generalizing start with
  | nil =>
      right
      exact ⟨rfl, fun field member => absurd member List.not_mem_nil⟩
  | cons field fields ih =>
      have inner := fun start => ih start fun other member =>
        correct other (List.mem_cons_of_mem field member)
      rw [List.map_cons, List.map_cons, scanContentLength]
      by_cases named : field.name = "Content-Length".toList
      · have value : (field.line ++ ['\r']).drop contentLengthName.length =
            field.value ++ ['\r'] := by
          rw [Field.line, named]
          rfl
        rw [if_pos ((field_named_iff field).mpr named), value,
          stoul_announced (correct field List.mem_cons_self named) bounded]
        simp only [if_neg (Nat.not_lt.mpr bounded)]
        rcases inner length with found | ⟨found, _⟩
        · exact Or.inl found
        · exact Or.inl found
      · rw [if_neg (fun front => named ((field_named_iff field).mp front))]
        rcases inner start with found | ⟨found, unnamed⟩
        · exact Or.inl found
        · right
          refine ⟨found, ?_⟩
          intro other member
          rcases List.mem_cons.mp member with rfl | later
          · exact named
          · exact unnamed other later

theorem declared_length_request (small : request.body.length ≤ maxContentLength) :
    declaredLength request.head = .ok (some request.body.length) := by
  have lines := lines_until_blank (fun line member => (lines_plain request line member).inOneLine) []
  rw [List.append_nil] at lines
  rw [declaredLength, KeepAliveRequest.head, lines, List.map_cons, scanContentLength,
    if_neg (request_line_not_named request)]
  rcases scan_fields 0 small request.lengthsCorrect with found | ⟨found, unnamed⟩
  · exact found
  · have empty : request.body = [] := by
      by_contra some
      rcases request.bodyAnnounced some with ⟨field, member, named⟩
      exact unnamed field member named
    rw [empty]
    exact found

theorem next_frame_request (small : request.body.length ≤ maxContentLength) (more : Bytes) :
    nextFrame (request.bytes ++ more) = .ok (.complete request.bytes.length) := by
  have whole : request.bytes.length = request.head.length + request.body.length := by
    simp [KeepAliveRequest.bytes]
  rw [next_frame_of_header (header_part_request request more),
    declared_length_request request small]
  simp only [List.length_append, whole]
  rw [if_neg (by omega)]

/-- A part of a request is no request, and nothing else either. -/
theorem next_frame_unfinished (small : request.body.length ≤ maxContentLength)
    {received missing : Bytes} (split : request.bytes = received ++ missing)
    (some : missing ≠ []) : nextFrame received = .ok .incomplete := by
  by_contra settled
  have same := next_frame_append missing rfl settled
  have whole := next_frame_request request small []
  rw [List.append_nil, split] at whole
  have bounds := next_frame_complete_bounds (same.symm.trans whole)
  have positive := List.length_pos_iff.mpr some
  simp only [List.length_append] at bounds
  omega

theorem request_keeps_connection : endsConnection (parseRequest request.bytes) = false := by
  have noHeader : (OrderedMap.empty : Headers).find? "Connection".toList ≠
      some "close".toList := by
    rw [OrderedMap.find_empty]
    intro same
    cases same
  have notClose := connection_not_close request.fields OrderedMap.empty request.keepsAlive noHeader
  rw [parse_request_bytes]
  exact keeps_connection request.methodSome request.targetSome rfl notClose

end Requests

end RestfulWebserver.Session
