import RestfulWebserver.Session.Frames
import RestfulWebserver.Session.Machine

/-!
# Reading a response

The reader on the other side of the connection: it takes the lines in front of
the first empty one apart. `ToString` has no case for `PAYLOAD_TOO_LARGE`, and
that is all that is lost.
-/

namespace RestfulWebserver.Session

open RestfulWebserver.Library RestfulWebserver.Http

/-! ## The lines of a header block -/

def crlfSplit (text : Bytes) : List Bytes :=
  match _found : find crlf text with
  | none => [text]
  | some index => text.take index :: crlfSplit (text.drop (index + 2))
termination_by text.length
decreasing_by
  have room := find_some_room _found
  have two : crlf.length = 2 := rfl
  simp only [List.length_drop]
  omega

theorem crlf_split_line {line : Bytes} (noReturn : '\r' ∉ line) : crlfSplit line = [line] := by
  have absent : find crlf line = none := by
    have skipped := @find_skip crlf line [] '\r' rfl noReturn
    rw [List.append_nil] at skipped
    rw [skipped]
    rfl
  rw [crlfSplit]
  split
  · rfl
  · rename_i found
    rw [absent] at found
    cases found

theorem crlf_split_cons {line : Bytes} (noReturn : '\r' ∉ line) (rest : Bytes) :
    crlfSplit (line ++ (crlf ++ rest)) = line :: crlfSplit rest := by
  have located : find crlf (line ++ (crlf ++ rest)) = some line.length := by
    rw [@find_skip crlf _ _ '\r' rfl noReturn, find_at_front (List.prefix_append crlf rest)]
    simp
  rw [crlfSplit]
  split
  · rename_i found
    rw [located] at found
    cases found
  · rename_i index found
    rw [located] at found
    cases found
    have behind : (line ++ (crlf ++ rest)).drop (line.length + 2) = rest := by
      rw [List.drop_length_add_append]
      rfl
    rw [List.take_left, behind]

def splitHead (text : Bytes) : Option (List Bytes × Bytes) :=
  (find headerEndMark text).map fun index =>
    (crlfSplit (text.take index), text.drop (index + headerEndMark.length))

theorem crlf_lines_cons (line : Bytes) (lines : List Bytes) :
    crlfLines (line :: lines) = line ++ (crlf ++ crlfLines lines) := by
  simp [crlfLines]

theorem crlf_lines_length {lines : List Bytes} (nonempty : lines ≠ []) :
    2 ≤ (crlfLines lines).length := by
  obtain ⟨line, more, rfl⟩ := List.exists_cons_of_ne_nil nonempty
  have two : crlf.length = 2 := rfl
  rw [crlf_lines_cons]
  simp only [List.length_append]
  omega

/-- Without its last line end a block of lines is split into the lines. -/
theorem crlf_split_lines {lines : List Bytes} (plain : ∀ line ∈ lines, PlainLine line)
    (nonempty : lines ≠ []) :
    crlfSplit ((crlfLines lines).take ((crlfLines lines).length - 2)) = lines := by
  have two : crlf.length = 2 := rfl
  induction lines with
  | nil => exact absurd rfl nonempty
  | cons line lines ih =>
      obtain ⟨here, later⟩ := List.forall_mem_cons.mp plain
      cases lines with
      | nil =>
          have ends : (crlfLines [line]).take ((crlfLines [line]).length - 2) = line := by
            simp [crlfLines, two]
          rw [ends, crlf_split_line here.2.1]
      | cons next more =>
          have longer := @crlf_lines_length (next :: more) (by simp)
          have size : (crlfLines (line :: next :: more)).length - 2 =
              line.length + (2 + ((crlfLines (next :: more)).length - 2)) := by
            rw [crlf_lines_cons]
            simp only [List.length_append]
            omega
          have inner : (crlf ++ crlfLines (next :: more)).take
              (2 + ((crlfLines (next :: more)).length - 2)) =
                crlf ++ (crlfLines (next :: more)).take ((crlfLines (next :: more)).length - 2) := by
            rw [← two, List.take_length_add_append]
          rw [size, crlf_lines_cons line, List.take_length_add_append, inner,
            crlf_split_cons here.2.1, ih later (by simp)]

theorem split_head_lines {lines : List Bytes} (plain : ∀ line ∈ lines, PlainLine line)
    (nonempty : lines ≠ []) (rest : Bytes) :
    splitHead (crlfLines lines ++ (crlf ++ rest)) = some (lines, rest) := by
  have longer := crlf_lines_length nonempty
  have front : (crlfLines lines ++ (crlf ++ rest)).take ((crlfLines lines).length - 2) =
      (crlfLines lines).take ((crlfLines lines).length - 2) :=
    List.take_append_of_le_length (by omega)
  have behind : (crlfLines lines ++ (crlf ++ rest)).drop
      ((crlfLines lines).length - 2 + headerEndMark.length) = rest := by
    have position : (crlfLines lines).length - 2 + headerEndMark.length =
        (crlfLines lines).length + 2 := by
      have marks : headerEndMark.length = 4 := rfl
      omega
    rw [position, List.drop_length_add_append]
    rfl
  rw [splitHead, find_lines_end plain nonempty, Option.map_some, front, behind,
    crlf_split_lines plain nonempty]

/-! ## Decoding -/

structure Decoded where
  status : Nat
  headers : Headers
  body : Bytes

def statusNumber (line : Bytes) : Option Nat :=
  let code := (extractWord (extractWord line).2).1
  if code ≠ [] ∧ ∀ byte ∈ code, byte.isDigit = true then some (decimal code) else none

/-- A header line, split at the first colon with a space behind it. -/
def splitField (line : Bytes) : Option (Bytes × Bytes) :=
  (find ": ".toList line).map fun index => (line.take index, line.drop (index + 2))

def assignAll (fields : List (Bytes × Bytes)) : Headers :=
  fields.foldl (fun headers field => headers.assign field.1 field.2) OrderedMap.empty

def decodeResponse (text : Bytes) : Option Decoded :=
  match splitHead text with
  | some (statusLine :: lines, body) =>
      match statusNumber statusLine, lines.mapM splitField with
      | some status, some fields => some ⟨status, assignAll fields, body⟩
      | _, _ => none
  | _ => none

def PlainHeaders (headers : Headers) : Prop :=
  ∀ name value, headers.find? name = some value →
    name ≠ [] ∧ (∀ byte ∈ name, byte ≠ ':' ∧ byte ≠ '\r' ∧ byte ≠ '\n') ∧
      ∀ byte ∈ value, byte ≠ '\r' ∧ byte ≠ '\n'

theorem plain_headers_iff (headers : Headers) :
    PlainHeaders headers ↔ ∀ entry ∈ headers.entries,
      entry.1 ≠ [] ∧ (∀ byte ∈ entry.1, byte ≠ ':' ∧ byte ≠ '\r' ∧ byte ≠ '\n') ∧
        ∀ byte ∈ entry.2, byte ≠ '\r' ∧ byte ≠ '\n' := by
  simp only [PlainHeaders, ← OrderedMap.mem_entries_iff, Prod.forall]

def wireNumber (status : StatusCode) : Nat :=
  if status = .payloadTooLarge then 500 else status.number

def statusLine (status : StatusCode) : Bytes := "HTTP/1.1 ".toList ++ statusText status

theorem status_line_plain (status : StatusCode) : PlainLine (statusLine status) := by
  cases status <;> decide

theorem status_number_line (status : StatusCode) :
    statusNumber (statusLine status) = some (wireNumber status) := by
  cases status <;> decide

theorem printed_header_plain {header : Bytes × Bytes}
    (name : ∀ byte ∈ header.1, byte ≠ ':' ∧ byte ≠ '\r' ∧ byte ≠ '\n')
    (value : ∀ byte ∈ header.2, byte ≠ '\r' ∧ byte ≠ '\n') : PlainLine (printedHeader header) := by
  have noReturn : '\r' ∉ header.1 := fun member => (name _ member).2.1 rfl
  have noNewline : '\n' ∉ header.1 := fun member => (name _ member).2.2 rfl
  have valueReturn : '\r' ∉ header.2 := fun member => (value _ member).1 rfl
  have valueNewline : '\n' ∉ header.2 := fun member => (value _ member).2 rfl
  simp [PlainLine, printedHeader, noReturn, noNewline, valueReturn, valueNewline]

theorem split_printed_header {header : Bytes × Bytes} (noColon : ':' ∉ header.1) :
    splitField (printedHeader header) = some header := by
  have occurs : ": ".toList <+: ':' :: ' ' :: header.2 := List.prefix_append [':', ' '] header.2
  have located : find ": ".toList (printedHeader header) = some header.1.length := by
    rw [printedHeader, @find_skip ": ".toList _ _ ':' rfl noColon, find_at_front occurs]
    simp
  have behind : (printedHeader header).drop (header.1.length + 2) = header.2 := by
    rw [printedHeader, List.drop_length_add_append]
    rfl
  have before : (printedHeader header).take header.1.length = header.1 := List.take_left
  rw [splitField, located, Option.map_some, before, behind]

theorem to_string_lines (response : HttpResponse) :
    response.toString = crlfLines (statusLine response.status ::
      response.headers.entries.map printedHeader) ++ (crlf ++ response.body) := by
  have lines := crlf_lines_cons (statusLine response.status)
    (response.headers.entries.map printedHeader)
  rw [lines, ← header_lines_printed response.headers.entries]
  unfold HttpResponse.toString statusLine
  simp only [List.append_assoc]

theorem response_lines_plain {response : HttpResponse} (plain : PlainHeaders response.headers) :
    ∀ line ∈ statusLine response.status :: response.headers.entries.map printedHeader,
      PlainLine line := by
  refine List.forall_mem_cons.mpr ⟨status_line_plain _, fun line member => ?_⟩
  obtain ⟨⟨name, value⟩, stored, rfl⟩ := List.mem_map.mp member
  obtain ⟨_, inName, inValue⟩ := plain name value ((OrderedMap.mem_entries_iff _ _ _).mp stored)
  exact printed_header_plain inName inValue

theorem decode_to_string {response : HttpResponse} (plain : PlainHeaders response.headers) :
    decodeResponse response.toString =
      some ⟨wireNumber response.status, response.headers, response.body⟩ := by
  have fields : (response.headers.entries.map printedHeader).mapM splitField =
      some response.headers.entries := by
    have each : ∀ entry ∈ response.headers.entries, splitField (printedHeader entry) = some entry := by
      intro entry stored
      obtain ⟨_, inName, _⟩ := plain entry.1 entry.2 ((OrderedMap.mem_entries_iff _ _ _).mp stored)
      exact split_printed_header fun member => (inName _ member).1 rfl
    generalize response.headers.entries = entries at each
    induction entries with
    | nil => rfl
    | cons entry entries ih =>
        obtain ⟨here, later⟩ := List.forall_mem_cons.mp each
        simp [here, ih later]
  rw [decodeResponse, to_string_lines, split_head_lines (response_lines_plain plain) (by simp)]
  simp only [status_number_line, fields, assignAll, OrderedMap.fold_assign_entries]

/-- A response is read back as what it was unless it is a 413, which goes out as
a 500. -/
theorem decode_to_string_iff (response : HttpResponse) (plain : PlainHeaders response.headers) :
    decodeResponse response.toString =
        some ⟨response.status.number, response.headers, response.body⟩ ↔
      response.status ≠ .payloadTooLarge := by
  rw [decode_to_string plain]
  simp only [Option.some.injEq, Decoded.mk.injEq, and_true]
  rw [wireNumber]
  split_ifs with large
  · simp [large, StatusCode.number]
  · simp [large]

theorem decode_not_found :
    decodeResponse notFoundResponse.toString =
      some ⟨404, notFoundResponse.headers, notFoundResponse.body⟩ :=
  (decode_to_string_iff notFoundResponse ((plain_headers_iff _).mpr (by decide))).mpr (by decide)

/-- What the session answers to an announced length that is too large. -/
theorem too_large_lost :
    ¬ ∀ response : HttpResponse, PlainHeaders response.headers →
      decodeResponse response.toString =
        some ⟨response.status.number, response.headers, response.body⟩ := by
  intro kept
  have plain : PlainHeaders payloadTooLargeResponse.headers :=
    (plain_headers_iff _).mpr (by decide)
  have read := kept payloadTooLargeResponse plain
  rw [decode_to_string plain] at read
  have same := congrArg Decoded.status (Option.some.inj read)
  exact absurd same (by decide)

end RestfulWebserver.Session
