import RestfulWebserver.Http.ParseRequest
import RestfulWebserver.Library.Numeral

/-!
# Well-formed requests

HTTP/1.1 requests as a client writes them: a request line, header fields, an
empty line, all ended by CRLF, and a body as long as `Content-Length` says, on a
connection that is to be kept. Header names are spelled as the server looks
them up.
-/

namespace RestfulWebserver.Http

open RestfulWebserver.Library

/-- `value` announces a body of `length` bytes: a decimal number, with blanks
around it at most. -/
def AnnouncesLength (value : Bytes) (length : Nat) : Prop :=
  ∃ before digits after : Bytes, value = before ++ (digits ++ after) ∧
    (∀ byte ∈ before, isBlank byte = true) ∧ digits ≠ [] ∧
    (∀ byte ∈ digits, byte.isDigit = true) ∧ decimal digits = length ∧
    (∀ byte ∈ after, isBlank byte = true)

structure Field where
  name : Bytes
  value : Bytes
  nameToken : ∀ byte ∈ name, byte ≠ ':' ∧ byte ≠ '\r' ∧ byte ≠ '\n'
  valueInLine : ∀ byte ∈ value, byte ≠ '\r' ∧ byte ≠ '\n'

/-- A request that does not ask for the connection to be closed. -/
structure KeepAliveRequest where
  method : Bytes
  target : Bytes
  fields : List Field
  body : Bytes
  methodSome : method ≠ []
  methodToken : ∀ byte ∈ method, isSpace byte = false ∧ byte ≠ ':'
  targetSome : target ≠ []
  targetToken : ∀ byte ∈ target, isSpace byte = false
  lengthsCorrect : ∀ field ∈ fields, field.name = "Content-Length".toList →
    AnnouncesLength field.value body.length
  bodyAnnounced : body ≠ [] → ∃ field ∈ fields, field.name = "Content-Length".toList
  keepsAlive : ∀ field ∈ fields, field.name = "Connection".toList →
    field.value.dropWhile isBlank ≠ "close".toList

def Field.line (field : Field) : Bytes := field.name ++ ':' :: field.value

namespace KeepAliveRequest

def requestLine (request : KeepAliveRequest) : Bytes :=
  request.method ++ ' ' :: (request.target ++ ' ' :: "HTTP/1.1".toList)

def fieldLines (request : KeepAliveRequest) : List Bytes := request.fields.map Field.line

end KeepAliveRequest

def crlfLines (lines : List Bytes) : Bytes := lines.flatMap (· ++ crlf)

def printedHeader (header : Bytes × Bytes) : Bytes := header.1 ++ ':' :: ' ' :: header.2

theorem header_lines_printed (entries : List (Bytes × Bytes)) :
    (entries.map headerLine).flatten = crlfLines (entries.map printedHeader) := by
  rw [crlfLines, List.flatMap_map, ← List.flatMap_def]
  apply List.flatMap_congr
  intro header _
  simp [headerLine, printedHeader]

def KeepAliveRequest.head (request : KeepAliveRequest) : Bytes :=
  crlfLines (request.requestLine :: request.fieldLines) ++ crlf

def KeepAliveRequest.bytes (request : KeepAliveRequest) : Bytes := request.head ++ request.body

/-- A line as it stands between two CRLF: something, and neither CR nor LF. -/
def PlainLine (line : Bytes) : Prop := line ≠ [] ∧ '\r' ∉ line ∧ '\n' ∉ line

instance (line : Bytes) : Decidable (PlainLine line) := inferInstanceAs (Decidable (_ ∧ _))

theorem field_line_plain (field : Field) : PlainLine field.line := by
  refine ⟨by simp [Field.line], ?_, ?_⟩
  · intro member
    rcases List.mem_append.mp member with inName | inValue
    · exact (field.nameToken _ inName).2.1 rfl
    · rcases List.mem_cons.mp inValue with colon | inValue
      · cases colon
      · exact (field.valueInLine _ inValue).1 rfl
  · intro member
    rcases List.mem_append.mp member with inName | inValue
    · exact (field.nameToken _ inName).2.2 rfl
    · rcases List.mem_cons.mp inValue with colon | inValue
      · cases colon
      · exact (field.valueInLine _ inValue).2 rfl

theorem space_free_plain {word : Bytes} (token : ∀ byte ∈ word, isSpace byte = false) :
    '\r' ∉ word ∧ '\n' ∉ word := by
  constructor
  · intro member
    cases token _ member
  · intro member
    cases token _ member

theorem request_line_plain (request : KeepAliveRequest) : PlainLine request.requestLine := by
  have method := space_free_plain fun byte member => (request.methodToken byte member).1
  have target := space_free_plain request.targetToken
  refine ⟨by simp [KeepAliveRequest.requestLine], ?_, ?_⟩
  · simp [KeepAliveRequest.requestLine, method.1, target.1]
  · simp [KeepAliveRequest.requestLine, method.2, target.2]

theorem lines_plain (request : KeepAliveRequest) :
    ∀ line ∈ request.requestLine :: request.fieldLines, PlainLine line := by
  intro line member
  rcases List.mem_cons.mp member with rfl | inFields
  · exact request_line_plain request
  · rcases List.mem_map.mp inFields with ⟨field, _, rfl⟩
    exact field_line_plain field

def InOneLine (line : Bytes) : Prop := line ≠ [] ∧ '\n' ∉ line

theorem PlainLine.inOneLine {line : Bytes} (plain : PlainLine line) : InOneLine line :=
  ⟨plain.1, plain.2.2⟩

theorem lines_until_blank {lines : List Bytes} (inOne : ∀ line ∈ lines, InOneLine line)
    (rest : Bytes) : linesUntil blankLine (crlfLines lines ++ (crlf ++ rest)) =
      (lines.map (· ++ ['\r']), rest) := by
  induction lines with
  | nil =>
      have stop : blankLine ++ '\n' :: rest = crlf ++ rest := rfl
      rw [crlfLines, List.flatMap_nil, List.nil_append, ← stop, lines_until_stop (by decide)]
      rfl
  | cons line lines ih =>
      rcases inOne line List.mem_cons_self with ⟨nonempty, oneLine⟩
      have first : crlfLines (line :: lines) ++ (crlf ++ rest) =
          (line ++ ['\r']) ++ '\n' :: (crlfLines lines ++ (crlf ++ rest)) := by
        simp [crlfLines, crlf]
      have goes : line ++ ['\r'] ≠ blankLine := by
        intro same
        have length := congrArg List.length same
        have positive := List.length_pos_iff.mpr nonempty
        simp only [List.length_append, List.length_singleton] at length
        have short : blankLine.length = 1 := rfl
        omega
      rw [first, lines_until_line (by simp [oneLine]) goes,
        ih fun other member => inOne other (List.mem_cons_of_mem line member)]
      rfl

theorem add_header_line (headers : Headers) {name : Bytes} (noColon : ':' ∉ name) (value : Bytes) :
    addHeader headers (name ++ ':' :: (value ++ ['\r'])) =
      headers.assign name (value.dropWhile isBlank) := by
  have located : find ":".toList (name ++ ':' :: (value ++ ['\r'])) = some name.length := by
    rw [@find_skip _ _ _ ':' rfl noColon, find_at_front (by simp)]
    simp
  have before : (name ++ ':' :: (value ++ ['\r'])).take name.length = name := by simp
  have behind : (name ++ ':' :: (value ++ ['\r'])).drop (name.length + 1) = value ++ ['\r'] := by
    simp
  have trimmed : trimValue (value ++ ['\r']) = value.dropWhile isBlank := by
    have blanks : (value ++ ['\r']).dropWhile isBlank = value.dropWhile isBlank ++ ['\r'] := by
      rw [List.dropWhile_append]
      split
      · rename_i allBlank
        rw [List.isEmpty_iff.mp allBlank]
        rfl
      · rfl
    simp [trimValue, blanks]
  simp only [addHeader, located, before, behind, trimmed]

theorem parse_request_lines {method path version : Bytes} {lines : List Bytes}
    (methodWord : method ≠ [] ∧ ∀ byte ∈ method, isSpace byte = false)
    (pathWord : path ≠ [] ∧ ∀ byte ∈ path, isSpace byte = false)
    (versionWord : version ≠ [] ∧ ∀ byte ∈ version, isSpace byte = false)
    (inOne : ∀ line ∈ lines, InOneLine line) (body : Bytes) :
    parseRequest (method ++ (' ' :: (path ++ (' ' :: (version ++
        (crlf ++ (crlfLines lines ++ (crlf ++ body)))))))) =
      { method := method
        path := path
        version := version
        headers := (lines.map (· ++ ['\r'])).foldl addHeader OrderedMap.empty
        body := body } := by
  have blankEnds : ∀ rest, EndsRun (!isSpace ·) (' ' :: rest) := fun rest =>
    ends_run_cons (by decide)
  have crEnds : ∀ rest, EndsRun (!isSpace ·) (crlf ++ rest) := fun rest =>
    ends_run_cons (by decide)
  have readMethod := extract_first_word methodWord.2 methodWord.1
    (blankEnds (path ++ (' ' :: (version ++ (crlf ++ (crlfLines lines ++ (crlf ++ body)))))))
  have readPath := extract_word_of_blank ' ' rfl pathWord.2 pathWord.1
    (blankEnds (version ++ (crlf ++ (crlfLines lines ++ (crlf ++ body)))))
  have readVersion := extract_word_of_blank ' ' rfl versionWord.2 versionWord.1
    (crEnds (crlfLines lines ++ (crlf ++ body)))
  have restOfLine : getline (crlf ++ (crlfLines lines ++ (crlf ++ body))) =
      some (['\r'], crlfLines lines ++ (crlf ++ body)) :=
    @getline_line ['\r'] _ (by decide)
  simp only [parseRequest, readMethod, readPath, readVersion, restOfLine,
    lines_until_blank inOne body]

theorem parse_request_bytes (request : KeepAliveRequest) :
    parseRequest request.bytes =
      { method := request.method
        path := request.target
        version := "HTTP/1.1".toList
        headers := request.fields.foldl (fun headers field =>
          headers.assign field.name (field.value.dropWhile isBlank)) OrderedMap.empty
        body := request.body } := by
  have stream : request.bytes = request.method ++ (' ' :: (request.target ++ (' ' ::
      ("HTTP/1.1".toList ++ (crlf ++ (crlfLines request.fieldLines ++ (crlf ++ request.body))))))) := by
    simp [KeepAliveRequest.bytes, KeepAliveRequest.head, KeepAliveRequest.requestLine, crlfLines]
  have inOne : ∀ line ∈ request.fieldLines, InOneLine line := fun line member =>
    (lines_plain request line (List.mem_cons_of_mem _ member)).inOneLine
  have httpVersion : "HTTP/1.1".toList ≠ [] ∧ ∀ byte ∈ "HTTP/1.1".toList, isSpace byte = false :=
    ⟨by decide, forall_of_all (by decide)⟩
  have read := parse_request_lines
    ⟨request.methodSome, fun byte member => (request.methodToken byte member).1⟩
    ⟨request.targetSome, request.targetToken⟩
    httpVersion inOne request.body
  have addField : ∀ (headers : Headers) (field : Field), addHeader headers (field.line ++ ['\r']) =
      headers.assign field.name (field.value.dropWhile isBlank) := by
    intro headers field
    have noColon : ':' ∉ field.name := fun member => (field.nameToken _ member).1 rfl
    rw [Field.line, List.append_assoc, List.cons_append]
    exact add_header_line headers noColon field.value
  have headers : (request.fieldLines.map (· ++ ['\r'])).foldl addHeader OrderedMap.empty =
      request.fields.foldl (fun headers field =>
        headers.assign field.name (field.value.dropWhile isBlank)) OrderedMap.empty := by
    simp only [KeepAliveRequest.fieldLines, List.map_map, List.foldl_map, Function.comp_apply,
      addField]
  rw [stream, read, headers]

theorem connection_not_close (fields : List Field) (headers : Headers)
    (keeps : ∀ field ∈ fields, field.name = "Connection".toList →
      field.value.dropWhile isBlank ≠ "close".toList)
    (before : headers.find? "Connection".toList ≠ some "close".toList) :
    (fields.foldl (fun headers field =>
      headers.assign field.name (field.value.dropWhile isBlank)) headers).find?
        "Connection".toList ≠ some "close".toList := by
  induction fields generalizing headers with
  | nil => exact before
  | cons field fields ih =>
      rw [List.foldl_cons]
      apply ih
      · intro other member
        exact keeps other (List.mem_cons_of_mem field member)
      · rw [OrderedMap.find_assign]
        split
        · rename_i same
          intro closes
          exact keeps field List.mem_cons_self same (Option.some.inj closes)
        · exact before

end RestfulWebserver.Http
