import RestfulWebserver.Http.Handlers
import RestfulWebserver.Library.Run
import RestfulWebserver.Session.Effect
import RestfulWebserver.Session.ResponseDecoding

/-!
# Where a response ends

A client ends a response so many bytes behind the first empty line as the one
`Content-Length` announces. The texts of a session have the shape that this needs
when the answers of its handlers have.
-/

namespace RestfulWebserver.Session

open RestfulWebserver.Library RestfulWebserver.Http

/-! ## The client -/

def announcedLength (line : Bytes) : Option Bytes :=
  (splitField line).bind fun field =>
    if field.1 = "Content-Length".toList then some field.2 else none

def cutResponse (stream : Bytes) : Option (Bytes × Bytes) :=
  match find headerEndMark stream with
  | none => none
  | some index =>
      match (crlfSplit (stream.take index)).filterMap announcedLength with
      | [value] =>
          if value ≠ [] ∧ (∀ byte ∈ value, byte.isDigit = true) ∧
              index + 4 + decimal value ≤ stream.length then
            some (stream.take (index + 4 + decimal value), stream.drop (index + 4 + decimal value))
          else none
      | _ => none

theorem cut_response_shortens {stream response rest : Bytes}
    (cut : cutResponse stream = some (response, rest)) : rest.length < stream.length := by
  unfold cutResponse at cut
  split at cut
  · cases cut
  · split at cut
    · split_ifs at cut with complete
      cases cut
      simp only [List.length_drop]
      omega
    · cases cut

def cutAll (stream : Bytes) : Option (List Bytes) :=
  if stream = [] then some []
  else
    match _cut : cutResponse stream with
    | none => none
    | some (response, rest) => (cutAll rest).map (response :: ·)
termination_by stream.length
decreasing_by exact cut_response_shortens _cut

/-- Lines, one of which announces the length, an empty line and the body. -/
def Delimited (text : Bytes) : Prop :=
  ∃ lines body, text = crlfLines lines ++ (crlf ++ body) ∧ lines ≠ [] ∧
    (∀ line ∈ lines, PlainLine line) ∧
    lines.filterMap announcedLength = [toDecimal body.length]

theorem to_decimal_digits (number : Nat) :
    toDecimal number ≠ [] ∧ (∀ byte ∈ toDecimal number, byte.isDigit = true) ∧
      decimal (toDecimal number) = number :=
  ⟨Nat.toDigits_ne_nil, fun _ member => Nat.isDigit_of_mem_toDigits (by decide) (by decide) member,
    Nat.ofDigitChars_ten_toDigits⟩

theorem cut_delimited {text : Bytes} (delimited : Delimited text) (more : Bytes) :
    cutResponse (text ++ more) = some (text, more) := by
  obtain ⟨lines, body, rfl, nonempty, plain, announced⟩ := delimited
  obtain ⟨some, digits, number⟩ := to_decimal_digits body.length
  have whole : crlfLines lines ++ (crlf ++ body) ++ more =
      crlfLines lines ++ (crlf ++ (body ++ more)) := by simp
  have longer := crlf_lines_length nonempty
  have two : crlf.length = 2 := rfl
  have front : (crlfLines lines ++ (crlf ++ (body ++ more))).take ((crlfLines lines).length - 2) =
      (crlfLines lines).take ((crlfLines lines).length - 2) :=
    List.take_append_of_le_length (by omega)
  have size : (crlfLines lines).length - 2 + 4 + body.length =
      (crlfLines lines ++ (crlf ++ body)).length := by
    simp only [List.length_append]
    omega
  rw [cutResponse, whole, find_lines_end plain nonempty]
  simp only [front, crlf_split_lines plain nonempty, announced, number]
  rw [size, ← whole, if_pos ⟨some, digits, by simp⟩, List.take_left, List.drop_left]

theorem cut_all_delimited {texts : List Bytes} (delimited : ∀ text ∈ texts, Delimited text) :
    cutAll texts.flatten = some texts := by
  induction texts with
  | nil => simp [cutAll]
  | cons text texts ih =>
      obtain ⟨here, later⟩ := List.forall_mem_cons.mp delimited
      have nonempty : (text :: texts).flatten ≠ [] := by
        obtain ⟨lines, body, rfl, _⟩ := here
        simp [crlf]
      have cut : cutResponse (text :: texts).flatten = some (text, texts.flatten) :=
        cut_delimited here texts.flatten
      rw [cutAll, if_neg nonempty]
      split
      · rename_i failed
        rw [cut] at failed
        cases failed
      · rename_i response rest found
        rw [cut] at found
        cases found
        rw [ih later]
        rfl

/-! ## The session -/

/-- Headers that can be read, with the length of the body among them. -/
structure Measured (response : HttpResponse) : Prop where
  plain : PlainHeaders response.headers
  length : response.headers.find? "Content-Length".toList = some (toDecimal response.body.length)

theorem announced_length_header {header : Bytes × Bytes} (noColon : ':' ∉ header.1) :
    announcedLength (printedHeader header) =
      if header.1 = "Content-Length".toList then some header.2 else none := by
  rw [announcedLength, split_printed_header noColon]
  rfl

theorem measured_delimited {response : HttpResponse} (measured : Measured response) :
    Delimited response.toString := by
  refine ⟨_, response.body, to_string_lines response, by simp, response_lines_plain measured.plain, ?_⟩
  have status : announcedLength (statusLine response.status) = none := by
    cases response.status <;> decide
  have headers : (response.headers.entries.map printedHeader).filterMap announcedLength =
      response.headers.entries.filterMap fun header =>
        if header.1 = "Content-Length".toList then some header.2 else none := by
    rw [List.filterMap_map]
    apply List.filterMap_congr
    intro header stored
    obtain ⟨_, inName, _⟩ :=
      measured.plain header.1 header.2 ((OrderedMap.mem_entries_iff _ _ _).mp stored)
    exact announced_length_header fun member => (inName _ member).1 rfl
  have under := OrderedMap.entries_under response.headers "Content-Length".toList
  rw [measured.length, Option.toList_some] at under
  rw [List.filterMap_cons, status, headers]
  convert under

theorem plain_assign {headers : Headers} (plain : PlainHeaders headers) {name value : Bytes}
    (nonempty : name ≠ []) (inName : ∀ byte ∈ name, byte ≠ ':' ∧ byte ≠ '\r' ∧ byte ≠ '\n')
    (inValue : ∀ byte ∈ value, byte ≠ '\r' ∧ byte ≠ '\n') :
    PlainHeaders (headers.assign name value) := by
  intro other stored found
  rw [OrderedMap.find_assign] at found
  split_ifs at found with same
  · cases found
    exact same ▸ ⟨nonempty, inName, inValue⟩
  · exact plain other stored found

theorem plain_empty : PlainHeaders OrderedMap.empty := by
  intro name value stored
  cases stored

theorem to_decimal_plain (number : Nat) : ∀ byte ∈ toDecimal number, byte ≠ '\r' ∧ byte ≠ '\n' := by
  intro byte member
  have digit := (to_decimal_digits number).2.1 byte member
  constructor
  · rintro rfl
    cases digit
  · rintro rfl
    cases digit

theorem measured_text (status : StatusCode) (body : Bytes) : Measured (textResponse status body) where
  plain := plain_assign (plain_assign plain_empty (by decide) (by decide) (by decide)) (by decide)
    (by decide) (to_decimal_plain _)
  length := OrderedMap.find_assign_self _ _ _

theorem measured_set_connection {response : HttpResponse} (measured : Measured response) (close : Bool) :
    Measured (setConnection response close) where
  plain := by
    refine plain_assign measured.plain (by decide) (by decide) ?_
    cases close <;> decide
  length := by
    rw [setConnection, OrderedMap.find_assign_other _ _ (by decide)]
    exact measured.length

theorem measured_plain_response (status : StatusCode) (body : Bytes) :
    Measured (plainResponse status body) where
  plain := plain_assign (measured_text status body).plain (by decide) (by decide) (by decide)
  length := by
    rw [plainResponse, OrderedMap.find_assign_other _ _ (by decide), OrderedMap.find_assign_self]

theorem error_response_delimited : Delimited errorResponse :=
  ⟨["HTTP/1.1 413 Payload Too Large".toList, "Content-Length: 0".toList,
      "Connection: close".toList], [], by decide, by decide,
    by decide, by decide⟩

def AnswersMeasured (server : Server) : Prop :=
  ∀ count text, Measured (dispatch server count (parseRequest text))

theorem kept_responses_delimited {server : Server} (measured : AnswersMeasured server) (count : Nat)
    (fulls : List Bytes) :
    ∀ response ∈ keptResponses server count fulls, Delimited response.text := by
  induction fulls generalizing count with
  | nil => simp [keptResponses]
  | cons full fulls ih =>
      refine List.forall_mem_cons.mpr ⟨?_, ih (count + 1)⟩
      exact measured_delimited (measured_set_connection (measured count full) false)

theorem closing_response_delimited {server : Server} (measured : AnswersMeasured server) (count : Nat)
    (full : Bytes) : Delimited (closingResponse server count full).text := by
  rw [closingResponse]
  have bad : Delimited badRequestResponse.toString := measured_delimited (measured_plain_response _ _)
  split_ifs
  · exact bad
  · exact bad
  · exact measured_delimited (measured_set_connection (measured count full) true)

theorem batch_responses_delimited {server : Server} (measured : AnswersMeasured server) (count : Nat)
    (taken : Batch) :
    ∀ response ∈ batchResponses server count taken, Delimited response.text := by
  intro response member
  rcases List.mem_append.mp member with kept | exit
  · exact kept_responses_delimited measured count _ response kept
  · cases ended : taken.exit with
    | waiting => simp [ended, exitResponses] at exit
    | tooLarge =>
        rw [ended, exitResponses, List.mem_singleton] at exit
        rw [exit]
        exact measured_delimited (measured_plain_response _ _)
    | closing full =>
        rw [ended, exitResponses, List.mem_singleton] at exit
        rw [exit]
        exact closing_response_delimited measured _ full
    | threw error => simp [ended, exitResponses] at exit

theorem delimited_effect {server : Server} (measured : AnswersMeasured server) {state next : State}
    {event : Event} (delimited : ∀ response ∈ state.responses, Delimited response.text)
    (effect : Effect server state event next) :
    ∀ response ∈ next.responses, Delimited response.text := by
  cases effect with
  | oversize index chunk ready exceeds =>
      intro response member
      rcases List.mem_append.mp member with earlier | added
      · exact delimited response earlier
      · rw [List.mem_singleton.mp added]
        exact error_response_delimited
  | batch index chunk ready fits taken cut =>
      intro response member
      rcases List.mem_append.mp member with earlier | added
      · exact delimited response earlier
      · exact batch_responses_delimited measured _ taken response added
  | arrive | transmit | writeOpen => exact delimited
  | readError | writeClosed | writeError =>
      intro response member
      unfold safeDelete at member
      split_ifs at member <;> exact delimited response member

/-- The concatenation of all responses is cut into the responses. -/
theorem cut_all_run {server : Server} (measured : AnswersMeasured server) {events : List Event}
    {state : State} (ran : run (step server) start events = some state) :
    cutAll (state.responses.map Response.text).flatten =
      some (state.responses.map Response.text) := by
  have delimited : ∀ response ∈ state.responses, Delimited response.text := by
    refine @invariant_of_run _ _ _
      (fun state => ∀ response ∈ state.responses, Delimited response.text) _
      (by simp [start, startRead, constructed]) ?_ _ _ ran
    intro state event next holds stepped
    exact delimited_effect measured holds (step_effect stepped).2
  apply cut_all_delimited
  intro text member
  obtain ⟨response, stored, rfl⟩ := List.mem_map.mp member
  exact delimited response stored

end RestfulWebserver.Session
