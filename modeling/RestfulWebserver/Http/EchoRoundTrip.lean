import RestfulWebserver.Http.Handlers
import RestfulWebserver.Http.WellFormed

/-!
# The echo of a request

Printing is a right inverse of the parser on everything it can produce: its words
hold no white space, its names no colon, its values begin with no blank and end
before their line does.
-/

namespace RestfulWebserver.Http

open RestfulWebserver.Library

def Readable (headers : Headers) : Prop :=
  ∀ name value, headers.find? name = some value →
    ':' ∉ name ∧ '\n' ∉ name ∧ '\n' ∉ value ∧ value.dropWhile isBlank = value

theorem trim_value_trimmed (value : Bytes) :
    (trimValue value).dropWhile isBlank = trimValue value := by
  have ends := @ends_run_drop_while isBlank value
  have unblank : ∀ text : Bytes, EndsRun isBlank text → text.dropWhile isBlank = text := by
    intro text solid
    cases text with
    | nil => rfl
    | cons byte rest => simp [solid byte rfl]
  apply unblank
  rw [trimValue]
  split_ifs with ended
  · intro byte first
    apply ends byte
    cases trimmed : value.dropWhile isBlank with
    | nil => simp [trimmed] at first
    | cons head rest =>
        cases rest with
        | nil => simp [trimmed] at first
        | cons next rest => simpa [trimmed] using first
  · exact ends

theorem trim_value_subset (value : Bytes) : trimValue value ⊆ value := by
  intro byte member
  rw [trimValue] at member
  split_ifs at member
  · exact (List.dropWhile_suffix isBlank).subset ((List.dropLast_sublist _).subset member)
  · exact (List.dropWhile_suffix isBlank).subset member

theorem add_header_readable {headers : Headers} (readable : Readable headers) {line : Bytes}
    (oneLine : '\n' ∉ line) : Readable (addHeader headers line) := by
  rw [addHeader]
  split
  · exact readable
  · rename_i colon found
    intro name value stored
    rw [OrderedMap.find_assign] at stored
    split_ifs at stored with same
    · cases stored
      rw [← same]
      exact ⟨find_byte_absent found, fun member => oneLine (List.mem_of_mem_take member),
        fun member => oneLine (List.mem_of_mem_drop (trim_value_subset _ member)),
        trim_value_trimmed _⟩
    · exact readable name value stored

theorem fold_headers_readable {lines : List Bytes} (oneLines : ∀ line ∈ lines, '\n' ∉ line)
    {headers : Headers} (readable : Readable headers) : Readable (lines.foldl addHeader headers) := by
  induction lines generalizing headers with
  | nil => exact readable
  | cons line lines ih =>
      obtain ⟨here, later⟩ := List.forall_mem_cons.mp oneLines
      exact ih later (add_header_readable readable here)

theorem parse_request_readable (text : Bytes) : Readable (parseRequest text).headers := by
  have nothing : Readable OrderedMap.empty := by
    intro name value stored
    cases stored
  exact fold_headers_readable (lines_until_one_line _ _) nothing

theorem extract_word_solid (stream : Bytes) :
    ∀ byte ∈ (extractWord stream).1, isSpace byte = false := by
  intro byte member
  simpa using List.mem_takeWhile_imp member

theorem printed_headers {headers : Headers} (readable : Readable headers) :
    ((headers.entries.map printedHeader).map (· ++ ['\r'])).foldl addHeader OrderedMap.empty =
      headers := by
  have added : ∀ (built : Headers) (entries : List (Bytes × Bytes)),
      (∀ entry ∈ entries, headers.find? entry.1 = some entry.2) →
        ((entries.map printedHeader).map (· ++ ['\r'])).foldl addHeader built =
          entries.foldl (fun built entry => built.assign entry.1 entry.2) built := by
    intro built entries stored
    induction entries generalizing built with
    | nil => rfl
    | cons entry entries ih =>
        obtain ⟨here, later⟩ := List.forall_mem_cons.mp stored
        obtain ⟨noColon, _, _, trimmed⟩ := readable entry.1 entry.2 here
        have line : addHeader built (printedHeader entry ++ ['\r']) =
            built.assign entry.1 entry.2 := by
          have read := add_header_line built noColon (' ' :: entry.2)
          have blank : (' ' :: entry.2).dropWhile isBlank = entry.2 := trimmed
          rw [blank] at read
          rw [printedHeader, List.append_assoc]
          exact read
        rw [List.map_cons, List.map_cons, List.foldl_cons, List.foldl_cons, line, ih _ later]
  rw [added _ _ fun entry member => (OrderedMap.mem_entries_iff _ _ _).mp member]
  exact headers.fold_assign_entries

/-- A printed request with readable parts is parsed as what it was. -/
theorem parse_full_request {request : HttpRequest}
    (methodWord : request.method ≠ [] ∧ ∀ byte ∈ request.method, isSpace byte = false)
    (pathWord : request.path ≠ [] ∧ ∀ byte ∈ request.path, isSpace byte = false)
    (versionWord : request.version ≠ [] ∧ ∀ byte ∈ request.version, isSpace byte = false)
    (readable : Readable request.headers) :
    parseRequest (EchoHandler.fullRequest request) = request := by
  have inOne : ∀ line ∈ request.headers.entries.map printedHeader, InOneLine line := by
    intro line member
    obtain ⟨⟨name, value⟩, stored, rfl⟩ := List.mem_map.mp member
    obtain ⟨_, nameInLine, valueInLine, _⟩ :=
      readable name value ((OrderedMap.mem_entries_iff _ _ _).mp stored)
    exact ⟨by simp [printedHeader], by simp [printedHeader, nameInLine, valueInLine]⟩
  have text : EchoHandler.fullRequest request = request.method ++ (' ' :: (request.path ++
      (' ' :: (request.version ++ (crlf ++
        (crlfLines (request.headers.entries.map printedHeader) ++ (crlf ++ request.body))))))) := by
    rw [EchoHandler.fullRequest, header_lines_printed]
    simp
  rw [text, parse_request_lines methodWord pathWord versionWord inOne, printed_headers readable]

/-- The body of an echo is parsed as the request it is the echo of. -/
theorem echo_parses_back (text : Bytes) (isGet : (parseRequest text).method = "GET".toList)
    (path : (parseRequest text).path ≠ []) (version : (parseRequest text).version ≠ []) :
    parseRequest (EchoHandler.handleRequest (parseRequest text)).body = parseRequest text := by
  have echoed : (EchoHandler.handleRequest (parseRequest text)).body =
      EchoHandler.fullRequest (parseRequest text) := by
    rw [EchoHandler.handleRequest, if_neg (not_not.mpr isGet)]
    rfl
  rw [echoed]
  exact parse_full_request ⟨by rw [isGet]; decide, extract_word_solid _⟩
    ⟨path, extract_word_solid _⟩ ⟨version, extract_word_solid _⟩ (parse_request_readable text)

/-- A value with a colon, a carriage return inside and a blank behind, and a name
without a value. -/
theorem echo_odd_headers :
    parseRequest (EchoHandler.handleRequest
      (parseRequest "GET / HTTP/1.1\r\nA:\t x:\ry \r\n:\r\n\r\n\n".toList)).body =
        parseRequest "GET / HTTP/1.1\r\nA:\t x:\ry \r\n:\r\n\r\n\n".toList :=
  echo_parses_back _ (by decide +kernel) (by decide +kernel) (by decide +kernel)

end RestfulWebserver.Http
