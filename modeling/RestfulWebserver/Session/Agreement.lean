import RestfulWebserver.Session.Framing

/-!
# Two readings of one request

`handle_read` cuts a request out of the buffer at the first CRLFCRLF and reads
`Content-Length` from the lines before it; `ParseRequest` reads the result again
with `>>` and `getline`. They mean the same method, path, version, headers and
body exactly when the first line holds the three tokens and no empty line comes
before that CRLFCRLF after a line that ends in a bare line feed.
-/

namespace RestfulWebserver.Session

open RestfulWebserver.Library RestfulWebserver.Http

/-- The request has the parts that the framer found in the buffer. A header line
keeps the carriage return it ends in. -/
def PartsAgree (buffer : Bytes) (request : HttpRequest) : Prop :=
  ∃ headerEnd contentLength, find headerEndMark buffer = some headerEnd ∧
    declaredLength (buffer.take (headerEnd + 4)) = .ok (some contentLength) ∧
    (words (firstLine buffer)).take 3 = [request.method, request.path, request.version] ∧
    (∃ lines : List Bytes, lines.Sublist ((buffer.take (headerEnd + 1)).splitOn '\n') ∧
      request.headers = lines.foldl addHeader OrderedMap.empty) ∧
    request.body = (buffer.drop (headerEnd + 4)).take contentLength

def emptyLine : Bytes := '\n' :: (blankLine ++ ['\n'])

/-- The first line has three tokens, and the first empty line after it is the one
in the first CRLFCRLF. -/
def ScannersInStep (buffer : Bytes) : Prop :=
  3 ≤ (words (firstLine buffer)).length ∧
    find emptyLine buffer = (find headerEndMark buffer).map (· + 1)

instance (buffer : Bytes) : Decidable (ScannersInStep buffer) :=
  inferInstanceAs (Decidable (_ ∧ _))

/-- What the parser makes of a text whose first line has three tokens. -/
theorem parse_request_line {line rest : Bytes} (oneLine : '\n' ∉ line)
    (tokens : 3 ≤ (words line).length) :
    (words line).take 3 = [(parseRequest (line ++ '\n' :: rest)).method,
        (parseRequest (line ++ '\n' :: rest)).path,
        (parseRequest (line ++ '\n' :: rest)).version] ∧
      (parseRequest (line ++ '\n' :: rest)).headers =
        (linesUntil blankLine rest).1.foldl addHeader OrderedMap.empty ∧
      (parseRequest (line ++ '\n' :: rest)).body = (linesUntil blankLine rest).2 := by
  have suffix : ∀ text : Bytes, (extractWord text).2 <:+ text := fun text =>
    (List.dropWhile_suffix _).trans (List.dropWhile_suffix _)
  have first : (extractWord line).1 ≠ [] := by
    intro none
    rw [words_extract, if_pos none] at tokens
    simp at tokens
  rw [words_extract, if_neg first] at tokens ⊢
  have second : (extractWord (extractWord line).2).1 ≠ [] := by
    intro none
    rw [words_extract, if_pos none] at tokens
    simp at tokens
  rw [words_extract (extractWord line).2, if_neg second] at tokens ⊢
  have third : (extractWord (extractWord (extractWord line).2).2).1 ≠ [] := by
    intro none
    rw [words_extract, if_pos none] at tokens
    simp at tokens
  rw [words_extract (extractWord (extractWord line).2).2, if_neg third]
  have noNewline : '\n' ∉ (extractWord (extractWord (extractWord line).2).2).2 := by
    intro member
    exact oneLine (((suffix _).trans ((suffix _).trans (suffix _))).subset member)
  simp only [parseRequest, extract_word_line first, extract_word_line second,
    extract_word_line third, getline_line noNewline]
  simp

theorem next_frame_complete {buffer : Bytes} {size : Nat}
    (complete : nextFrame buffer = .ok (.complete size)) :
    ∃ headerEnd contentLength, find headerEndMark buffer = some headerEnd ∧
      declaredLength (buffer.take (headerEnd + 4)) = .ok (some contentLength) ∧
      size = headerEnd + 4 + contentLength ∧ size ≤ buffer.length := by
  have bounds := next_frame_complete_bounds complete
  cases located : find headerEndMark buffer with
  | none => simp [nextFrame, headerPart, located] at complete
  | some headerEnd =>
      have room := find_some_room located
      have marks : headerEndMark.length = 4 := rfl
      have header : headerPart buffer = some (buffer.take (headerEnd + 4)) := by
        rw [headerPart, located]
        rfl
      rw [next_frame_of_header header] at complete
      split at complete
      · cases complete
      · cases complete
      · rename_i contentLength declared
        split at complete
        · cases complete
        · cases complete
          refine ⟨headerEnd, contentLength, rfl, declared, ?_, bounds.2⟩
          rw [List.length_take, Nat.min_eq_left (by omega)]

/-- The CRLFCRLF of the framer holds an empty line, so one is found in the
request that was cut out, and there first. -/
theorem empty_line_found {buffer : Bytes} {headerEnd size : Nat}
    (located : find headerEndMark buffer = some headerEnd) (holds : headerEnd + 4 ≤ size) :
    ∃ first, find emptyLine (buffer.take size) = some first ∧
      find emptyLine buffer = some first ∧ first ≤ headerEnd + 1 := by
  have room := find_some_room located
  have marks : headerEndMark.length = 4 := rfl
  obtain ⟨after, split⟩ := find_occurs located
  have occurs : emptyLine <+: (buffer.take size).drop (headerEnd + 1) := by
    rw [List.drop_take, ← List.drop_drop, ← split]
    obtain ⟨spare, enough⟩ : ∃ spare, size - (headerEnd + 1) = 3 + spare :=
      ⟨size - headerEnd - 4, by omega⟩
    rw [enough]
    exact ⟨after.take spare, by rw [Nat.add_comm]; rfl⟩
  obtain ⟨first, found, earlier⟩ := find_of_occurs occurs
  refine ⟨first, found, ?_, earlier⟩
  have grown := find_append (buffer.drop size) found
  rwa [List.take_append_drop] at grown

/-- For every request that is cut out of the buffer, whatever bytes came in. -/
theorem parts_agree_iff (buffer : Bytes) (size : Nat)
    (complete : nextFrame buffer = .ok (.complete size)) :
    PartsAgree buffer (parseRequest (buffer.take size)) ↔ ScannersInStep buffer := by
  obtain ⟨headerEnd, contentLength, located, declared, total, fits⟩ := next_frame_complete complete
  obtain ⟨first, found, foundInBuffer, earlier⟩ :=
    @empty_line_found _ _ size located (by omega)
  have hasLine : '\n' ∈ buffer.take size :=
    List.mem_of_mem_drop ((find_occurs found).subset List.mem_cons_self)
  obtain ⟨line, rest, split, oneLine⟩ := List.eq_append_cons_of_mem hasLine
  have sameLine : firstLine buffer = line := by
    rw [← List.take_append_drop size buffer, split, List.append_assoc, List.cons_append,
      first_line_append oneLine]
  have tokens := @parse_request_line line rest oneLine
  rw [split, find_skip rfl oneLine] at found
  obtain ⟨position, foundThere, rfl⟩ := Option.map_eq_some_iff.mp found
  obtain ⟨before, oneLines, left⟩ := lines_until_find (by decide) rest foundThere
  have sameRest : rest.drop (position + blankLine.length + 1) =
      (buffer.take size).drop (position + line.length + 3) := by
    have sum : position + line.length + 3 = line.length + ((position + 2) + 1) := by omega
    rw [split, sum, List.drop_length_add_append, List.drop_succ_cons]
    rfl
  rw [sameRest] at left
  rw [ScannersInStep, sameLine, located, foundInBuffer]
  constructor
  · intro ⟨otherEnd, otherLength, locatedToo, declaredToo, same, _, body⟩
    cases located.symm.trans locatedToo
    cases declared.symm.trans declaredToo
    rw [sameLine] at same
    have enough : 3 ≤ (words line).length := by
      have count := congrArg List.length same
      simp only [List.length_take, List.length_cons, List.length_nil] at count
      omega
    refine ⟨enough, ?_⟩
    rw [split, (tokens enough).2.2, left] at body
    have sizes := congrArg List.length body
    simp only [List.length_drop, List.length_take] at sizes
    simp only [Option.map_some, Option.some.injEq]
    omega
  · intro ⟨enough, inStep⟩
    obtain ⟨same, headers, body⟩ := tokens enough
    simp only [Option.map_some, Option.some.injEq] at inStep
    refine ⟨headerEnd, contentLength, located, declared, ?_, ?_, ?_⟩
    · rw [sameLine, split]
      exact same
    · refine ⟨(linesUntil blankLine rest).1, ?_, by rw [split]; exact headers⟩
      have head : buffer.take (headerEnd + 1) =
          line ++ (linesUntil blankLine rest).1.flatMap ('\n' :: ·) := by
        rw [← before, ← inStep, Nat.add_comm, ← List.take_length_add_append, ← split,
          List.take_take, Nat.min_eq_left (by omega)]
      rw [head, split_lines oneLine oneLines]
      exact List.sublist_cons_self _ _
    · rw [split, body, left, List.drop_take]
      congr 1
      · omega
      · congr 1
        omega

theorem parts_agree_get :
    PartsAgree "GET / HTTP/1.1\r\nHost: x\r\n\r\n".toList
        (parseRequest ("GET / HTTP/1.1\r\nHost: x\r\n\r\n".toList.take 27)) ↔
      ScannersInStep "GET / HTTP/1.1\r\nHost: x\r\n\r\n".toList :=
  parts_agree_iff _ 27 (by decide +kernel)

/-- An empty line after a bare line feed: the framer reads on, the parser stops and
takes the header line after it for a body. -/
def bareLineFeedGet : Bytes := "GET / HTTP/1.1\n\r\nX: y\r\n\r\n".toList

theorem parts_differ :
    nextFrame bareLineFeedGet = .ok (.complete 25) ∧
      malformed (parseRequest (bareLineFeedGet.take 25)) = false ∧
      (parseRequest (bareLineFeedGet.take 25)).version = httpVersion ∧
      ¬ PartsAgree bareLineFeedGet (parseRequest (bareLineFeedGet.take 25)) := by
  refine ⟨by decide +kernel, by decide +kernel, by decide +kernel, ?_⟩
  intro ⟨headerEnd, contentLength, located, declared, _, _, body⟩
  have headerAt : find headerEndMark bareLineFeedGet = some 21 := by decide +kernel
  cases headerAt.symm.trans located
  have noLength : declaredLength (bareLineFeedGet.take 25) = .ok (some 0) := by decide +kernel
  cases noLength.symm.trans declared
  exact absurd body (by decide +kernel)

end RestfulWebserver.Session
