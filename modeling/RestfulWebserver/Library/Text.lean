import Mathlib.Data.List.TakeWhile

/-!
# Byte strings and the stream operations on them

The part of `std::string` and `std::istringstream` that line-oriented text
protocols rest on: substring search, whitespace-separated extraction and
`std::getline`. A stream is the list of bytes it still holds; every extraction
fails exactly when nothing is left, so no separate error flag is kept.
-/

namespace RestfulWebserver.Library

/-- A byte is a character code. Only codes below 256 occur on a socket; nothing
below depends on that bound. -/
abbrev Bytes := List Char

/-- What is said of every byte of a text is decided byte by byte, not character by
character. -/
instance decidableForallByte {text : Bytes} {property : Char → Prop} [DecidablePred property] :
    Decidable (∀ byte ∈ text, property byte) := List.decidableBAll property text

theorem forall_of_all {text : Bytes} {property : Char → Prop} [DecidablePred property]
    (checked : (text.all fun byte => decide (property byte)) = true) :
    ∀ byte ∈ text, property byte := by
  intro byte member
  exact of_decide_eq_true (List.all_eq_true.mp checked byte member)

/-- `text.find(pattern)`: the first index at which `pattern` occurs. -/
def find (pattern : Bytes) : Bytes → Option Nat
  | [] => if pattern <+: [] then some 0 else none
  | byte :: rest =>
      if pattern <+: byte :: rest then some 0 else (find pattern rest).map (· + 1)

theorem find_at_front {pattern text : Bytes} (occurs : pattern <+: text) :
    find pattern text = some 0 := by
  cases text with
  | nil => rw [find, if_pos occurs]
  | cons byte rest => rw [find, if_pos occurs]

theorem find_cons_of_absent {pattern rest : Bytes} {byte : Char}
    (absent : ¬ pattern <+: byte :: rest) :
    find pattern (byte :: rest) = (find pattern rest).map (· + 1) := by
  rw [find, if_neg absent]

theorem find_some_room {pattern text : Bytes} {index : Nat}
    (found : find pattern text = some index) : index + pattern.length ≤ text.length := by
  induction text generalizing index with
  | nil =>
      simp only [find] at found
      split at found
      · rename_i occurs
        cases found
        simpa using occurs.length_le
      · cases found
  | cons byte rest ih =>
      by_cases occurs : pattern <+: byte :: rest
      · rw [find_at_front occurs] at found
        cases found
        simpa using occurs.length_le
      · rw [find_cons_of_absent occurs] at found
        obtain ⟨previous, foundRest, rfl⟩ := Option.map_eq_some_iff.mp found
        have room := ih foundRest
        simp only [List.length_cons]
        omega

theorem find_occurs {pattern text : Bytes} {index : Nat}
    (found : find pattern text = some index) : pattern <+: text.drop index := by
  induction text generalizing index with
  | nil =>
      simp only [find] at found
      split at found
      · rename_i occurs
        cases found
        exact occurs
      · cases found
  | cons byte rest ih =>
      by_cases occurs : pattern <+: byte :: rest
      · cases (find_at_front occurs).symm.trans found
        exact occurs
      · rw [find_cons_of_absent occurs] at found
        obtain ⟨previous, foundRest, rfl⟩ := Option.map_eq_some_iff.mp found
        exact ih foundRest

theorem find_of_occurs {pattern text : Bytes} {index : Nat}
    (occurs : pattern <+: text.drop index) : ∃ first, find pattern text = some first ∧ first ≤ index := by
  induction text generalizing index with
  | nil => exact ⟨0, find_at_front (by simpa using occurs), Nat.zero_le _⟩
  | cons byte rest ih =>
      by_cases here : pattern <+: byte :: rest
      · exact ⟨0, find_at_front here, Nat.zero_le _⟩
      · cases index with
        | zero => exact absurd occurs here
        | succ index =>
            obtain ⟨first, found, earlier⟩ := ih occurs
            refine ⟨first + 1, ?_, by omega⟩
            rw [find_cons_of_absent here, found]
            rfl

/-- No occurrence begins inside a run that lacks the first byte of the pattern. -/
theorem find_skip {pattern run rest : Bytes} {first : Char} (begins : pattern.head? = some first)
    (absent : first ∉ run) :
    find pattern (run ++ rest) = (find pattern rest).map (· + run.length) := by
  induction run with
  | nil => simp
  | cons byte run ih =>
      have notHere : ¬ pattern <+: byte :: (run ++ rest) := by
        rintro ⟨tail, split⟩
        have heads := congrArg List.head? split
        simp only [List.head?_append, begins, Option.some_or, List.head?_cons,
          Option.some.injEq] at heads
        exact absent (by simp [heads])
      rw [List.cons_append, find_cons_of_absent notHere,
        ih (fun member => absent (List.mem_cons_of_mem byte member)), Option.map_map]
      congr

theorem find_byte_absent {byte : Char} {text : Bytes} {index : Nat}
    (found : find [byte] text = some index) : byte ∉ text.take index := by
  intro member
  obtain ⟨place, bound, same⟩ := List.getElem_of_mem member
  rw [List.length_take] at bound
  have occurs : [byte] <+: text.drop place := by
    rw [List.drop_eq_getElem_cons (by omega), ← same, List.getElem_take]
    exact ⟨_, rfl⟩
  obtain ⟨first, foundFirst, earlier⟩ := find_of_occurs occurs
  cases found.symm.trans foundFirst
  omega

/-- A found occurrence stays the first one when the text grows. -/
theorem find_append {pattern text : Bytes} {index : Nat} (more : Bytes)
    (found : find pattern text = some index) : find pattern (text ++ more) = some index := by
  induction text generalizing index with
  | nil =>
      simp only [find] at found
      split at found
      · rename_i occurs
        cases found
        exact find_at_front (occurs.trans List.nil_prefix)
      · cases found
  | cons byte rest ih =>
      by_cases occurs : pattern <+: byte :: rest
      · rw [find_at_front occurs] at found
        cases found
        exact find_at_front (occurs.trans (List.prefix_append _ _))
      · rw [find_cons_of_absent occurs] at found
        obtain ⟨previous, foundRest, rfl⟩ := Option.map_eq_some_iff.mp found
        have room := find_some_room foundRest
        have shorter : pattern.length ≤ (byte :: rest).length := by
          simp only [List.length_cons]
          omega
        have absent : ¬ pattern <+: byte :: (rest ++ more) := fun longer =>
          occurs (List.prefix_of_prefix_length_le longer
            (List.prefix_append (byte :: rest) more) shorter)
        rw [List.cons_append, find_cons_of_absent absent, ih foundRest]
        rfl

/-- A text handed over as a C string ends at its first null byte. -/
def cString (text : Bytes) : Bytes := text.takeWhile (· ≠ '\x00')

theorem c_string_whole {text : Bytes} (noNull : '\x00' ∉ text) : cString text = text := by
  rw [cString, List.takeWhile_eq_self_iff]
  intro byte member
  rw [decide_eq_true_eq]
  rintro rfl
  exact noNull member

theorem c_string_cons {byte : Char} (notNull : byte ≠ '\x00') (rest : Bytes) :
    cString (byte :: rest) = byte :: cString rest := by
  simp [cString, notNull]

theorem c_string_cut {front : Bytes} (null : '\x00' ∈ front) (rest : Bytes) :
    cString (front ++ rest) = cString front := by
  induction front with
  | nil => cases null
  | cons byte front ih =>
      by_cases ends : byte = '\x00'
      · simp [cString, ends]
      · have later : '\x00' ∈ front := by
          rcases List.mem_cons.mp null with here | later
          · exact absurd here.symm ends
          · exact later
        rw [List.cons_append, c_string_cons ends, c_string_cons ends, ih later]

theorem c_string_behind {front : Bytes} (noNull : '\x00' ∉ front) (rest : Bytes) :
    cString (front ++ rest) = front ++ cString rest := by
  induction front with
  | nil => rfl
  | cons byte front ih =>
      obtain ⟨here, later⟩ := not_or.mp (mt List.mem_cons.mpr noNull)
      rw [List.cons_append, c_string_cons (Ne.symm here), ih later, List.cons_append]

/-- Whitespace as the extraction operators of the classic locale see it. -/
def isSpace (byte : Char) : Bool :=
  byte = ' ' || byte = '\t' || byte = '\n' || byte = '\x0b' || byte = '\x0c' || byte = '\r'

/-- `stream >> word`: skip whitespace, then take everything up to the next. -/
def extractWord (stream : Bytes) : Bytes × Bytes :=
  let skipped := stream.dropWhile isSpace
  (skipped.takeWhile (!isSpace ·), skipped.dropWhile (!isSpace ·))

/-- `std::getline(stream, line)`: the line without its newline, and what is left. -/
def getline (stream : Bytes) : Option (Bytes × Bytes) :=
  if stream = [] then none
  else some (stream.takeWhile (· ≠ '\n'), (stream.dropWhile (· ≠ '\n')).tail)

theorem getline_rest_shorter {stream line rest : Bytes}
    (read : getline stream = some (line, rest)) : rest.length < stream.length := by
  simp only [getline] at read
  split at read
  · cases read
  · rename_i nonempty
    cases read
    have positive : 0 < stream.length := List.length_pos_iff.mpr nonempty
    have dropped := (List.dropWhile_suffix (l := stream) (· ≠ '\n')).length_le
    simp only [List.length_tail]
    omega

/-- `while (std::getline(stream, line) && line != stop)`: the lines the body
runs on, and what the stream still holds after the loop. -/
def linesUntil (stop stream : Bytes) : List Bytes × Bytes :=
  match _read : getline stream with
  | none => ([], [])
  | some (line, rest) =>
      if line = stop then ([], rest)
      else (line :: (linesUntil stop rest).1, (linesUntil stop rest).2)
termination_by stream.length
decreasing_by all_goals exact getline_rest_shorter _read

section Scanning

variable {accepts : Char → Bool}

def EndsRun (accepts : Char → Bool) (rest : Bytes) : Prop :=
  ∀ byte, rest.head? = some byte → accepts byte = false

theorem take_while_run {run rest : Bytes} (inside : ∀ byte ∈ run, accepts byte = true)
    (ends : EndsRun accepts rest) : (run ++ rest).takeWhile accepts = run := by
  rw [List.takeWhile_append_of_pos inside]
  cases rest with
  | nil => simp
  | cons byte rest => simp [ends byte rfl]

theorem drop_while_run {run rest : Bytes} (inside : ∀ byte ∈ run, accepts byte = true)
    (ends : EndsRun accepts rest) : (run ++ rest).dropWhile accepts = rest := by
  rw [List.dropWhile_append_of_pos inside]
  cases rest with
  | nil => rfl
  | cons byte rest => simp [ends byte rfl]

theorem ends_run_cons {byte : Char} {rest : Bytes} (rejected : accepts byte = false) :
    EndsRun accepts (byte :: rest) := by
  intro first same
  cases same
  exact rejected

theorem ends_run_drop_while (text : Bytes) : EndsRun accepts (text.dropWhile accepts) := by
  intro byte first
  have rejected := List.head?_dropWhile_not accepts text
  rw [first] at rejected
  simpa using rejected

end Scanning

theorem extract_word_of_blank {word rest : Bytes} (blank : Char) (isBlank : isSpace blank = true)
    (noSpace : ∀ byte ∈ word, isSpace byte = false) (nonempty : word ≠ [])
    (ends : EndsRun (!isSpace ·) rest) :
    extractWord (blank :: (word ++ rest)) = (word, rest) := by
  have skipped : (blank :: (word ++ rest)).dropWhile isSpace = word ++ rest := by
    obtain ⟨first, tail, rfl⟩ := List.exists_cons_of_ne_nil nonempty
    simp [isBlank, noSpace first (by simp)]
  have inside : ∀ byte ∈ word, (!isSpace byte) = true := by
    intro byte member
    simp [noSpace byte member]
  simp only [extractWord, skipped]
  rw [take_while_run inside ends, drop_while_run inside ends]

theorem extract_first_word {word rest : Bytes}
    (noSpace : ∀ byte ∈ word, isSpace byte = false) (nonempty : word ≠ [])
    (ends : EndsRun (!isSpace ·) rest) : extractWord (word ++ rest) = (word, rest) := by
  have same : (word ++ rest).dropWhile isSpace = (' ' :: (word ++ rest)).dropWhile isSpace := rfl
  have blank := extract_word_of_blank ' ' rfl noSpace nonempty ends
  simpa only [extractWord, same] using blank

theorem getline_line {line rest : Bytes} (oneLine : '\n' ∉ line) :
    getline (line ++ '\n' :: rest) = some (line, rest) := by
  have inside : ∀ byte ∈ line, decide (byte ≠ '\n') = true := by
    intro byte member
    simp only [decide_eq_true_eq]
    rintro rfl
    exact oneLine member
  have ends : EndsRun (fun byte => decide (byte ≠ '\n')) ('\n' :: rest) := ends_run_cons (by simp)
  simp only [getline]
  rw [if_neg (by simp), take_while_run inside ends, drop_while_run inside ends]
  rfl

theorem lines_until_line {stop line rest : Bytes} (oneLine : '\n' ∉ line) (goes : line ≠ stop) :
    linesUntil stop (line ++ '\n' :: rest) =
      (line :: (linesUntil stop rest).1, (linesUntil stop rest).2) := by
  rw [linesUntil]
  split
  · rename_i ended
    rw [getline_line oneLine] at ended
    cases ended
  · rename_i read rest' got
    rw [getline_line oneLine] at got
    cases got
    rw [if_neg goes]

theorem lines_until_one_line (stop stream : Bytes) :
    ∀ line ∈ (linesUntil stop stream).1, '\n' ∉ line := by
  have first : ∀ {stream line rest : Bytes}, getline stream = some (line, rest) → '\n' ∉ line := by
    intro stream line rest read
    simp only [getline] at read
    split_ifs at read
    cases read
    intro member
    simpa using List.mem_takeWhile_imp member
  fun_induction linesUntil stop stream with
  | case1 => simp
  | case2 => simp
  | case3 stream line rest read goes ih => exact List.forall_mem_cons.mpr ⟨first read, ih⟩

theorem lines_until_stop {stop rest : Bytes} (oneLine : '\n' ∉ stop) :
    linesUntil stop (stop ++ '\n' :: rest) = ([], rest) := by
  rw [linesUntil]
  split
  · rename_i ended
    rw [getline_line oneLine] at ended
    cases ended
  · rename_i read rest' got
    rw [getline_line oneLine] at got
    cases got
    rw [if_pos rfl]

/-! ## The words and lines of a text as a whole -/

def firstLine (text : Bytes) : Bytes := text.takeWhile (· ≠ '\n')

def words (text : Bytes) : List Bytes := (text.splitOnP isSpace).filter (· ≠ [])

theorem first_line_append {line : Bytes} (oneLine : '\n' ∉ line) (rest : Bytes) :
    firstLine (line ++ '\n' :: rest) = line := by
  refine take_while_run ?_ (ends_run_cons (by simp))
  intro byte member
  simp only [decide_eq_true_eq]
  intro same
  exact oneLine (same ▸ member)

theorem words_blank {blank : Char} (isBlank : isSpace blank = true) (rest : Bytes) :
    words (blank :: rest) = words rest := by
  simp [words, List.splitOnP_cons_eq_if_modifyHead, isBlank]

theorem words_blanks {blanks : Bytes} (areBlank : ∀ byte ∈ blanks, isSpace byte = true)
    (rest : Bytes) : words (blanks ++ rest) = words rest := by
  induction blanks with
  | nil => rfl
  | cons blank blanks ih =>
      obtain ⟨here, after⟩ := List.forall_mem_cons.mp areBlank
      rw [List.cons_append, words_blank here, ih after]

theorem words_word {word rest : Bytes} (noSpace : ∀ byte ∈ word, isSpace byte = false)
    (nonempty : word ≠ []) (ends : EndsRun (!isSpace ·) rest) :
    words (word ++ rest) = word :: words rest := by
  cases rest with
  | nil => simp [words, List.splitOnP_eq_singleton noSpace, nonempty]
  | cons blank rest =>
      have isBlank : isSpace blank = true := by simpa using ends blank rfl
      rw [words_blank isBlank, words, List.splitOnP_append_cons_of_forall_mem noSpace blank isBlank]
      simp [words, nonempty]

/-- Extraction takes the words of a text one by one. -/
theorem words_extract (text : Bytes) :
    words text =
      if (extractWord text).1 = [] then []
      else (extractWord text).1 :: words (extractWord text).2 := by
  have skipped : words text = words (text.dropWhile isSpace) :=
    calc words text = words (text.takeWhile isSpace ++ text.dropWhile isSpace) := by
          rw [List.takeWhile_append_dropWhile]
      _ = words (text.dropWhile isSpace) :=
          words_blanks (fun byte member => List.mem_takeWhile_imp member) _
  rw [skipped, extractWord]
  cases solid : text.dropWhile isSpace with
  | nil => simp [words]
  | cons first rest =>
      have begins : isSpace first = false := by
        have rejected := ends_run_drop_while text first (by rw [solid]; rfl)
        exact rejected
      have nonempty : (first :: rest).takeWhile (!isSpace ·) ≠ [] := by simp [begins]
      have noSpace : ∀ byte ∈ (first :: rest).takeWhile (!isSpace ·), isSpace byte = false := by
        intro byte member
        simpa using List.mem_takeWhile_imp member
      have front := words_word noSpace nonempty (ends_run_drop_while (first :: rest))
      rw [List.takeWhile_append_dropWhile] at front
      rw [if_neg nonempty, front]

/-- A word found in a line is the word found in the line and what follows it. -/
theorem extract_word_line {line : Bytes} (found : (extractWord line).1 ≠ []) (rest : Bytes) :
    extractWord (line ++ '\n' :: rest) =
      ((extractWord line).1, (extractWord line).2 ++ '\n' :: rest) := by
  have solid : line.dropWhile isSpace ≠ [] := by
    intro none
    exact found (by simp [extractWord, none])
  have stops : ∀ text : Bytes, (text ++ '\n' :: rest).takeWhile (!isSpace ·) =
      text.takeWhile (!isSpace ·) ∧ (text ++ '\n' :: rest).dropWhile (!isSpace ·) =
        text.dropWhile (!isSpace ·) ++ '\n' :: rest := by
    intro text
    induction text with
    | nil => exact ⟨rfl, rfl⟩
    | cons byte text ih =>
        by_cases blank : isSpace byte = true
        · simp [blank]
        · simp [blank, ih]
  simp only [extractWord, List.dropWhile_append, List.isEmpty_iff, if_neg solid, stops]

theorem prefix_of_line {line first rest more : Bytes} (oneLine : '\n' ∉ line)
    (firstLine : '\n' ∉ first) (occurs : line ++ '\n' :: more <+: first ++ '\n' :: rest) :
    line = first := by
  obtain ⟨tail, split⟩ := occurs
  have lines := congrArg Library.firstLine split
  rwa [List.append_assoc, List.cons_append, first_line_append oneLine,
    first_line_append firstLine] at lines

/-- The lines up to a stop line, read off where that line first stands: they are
the text before it, and the rest is the text after it. -/
theorem lines_until_find {stop : Bytes} (oneLine : '\n' ∉ stop) (rest : Bytes) {index : Nat}
    (found : find ('\n' :: (stop ++ ['\n'])) ('\n' :: rest) = some index) :
    ('\n' :: rest).take index = (linesUntil stop rest).1.flatMap ('\n' :: ·) ∧
      (∀ line ∈ (linesUntil stop rest).1, '\n' ∉ line) ∧
      (linesUntil stop rest).2 = rest.drop (index + stop.length + 1) := by
  induction size : rest.length using Nat.strong_induction_on generalizing rest index with
  | _ size ih =>
      have hasLine : '\n' ∈ rest := by
        have occurs := find_occurs found
        cases index with
        | zero => exact (List.cons_prefix_cons.mp occurs).2.subset (by simp)
        | succ index => exact List.mem_of_mem_drop (occurs.subset List.mem_cons_self)
      obtain ⟨line, after, rfl, noNewline⟩ := List.eq_append_cons_of_mem hasLine
      by_cases same : line = stop
      · subst same
        have atFront : find ('\n' :: (line ++ ['\n'])) ('\n' :: (line ++ '\n' :: after)) = some 0 :=
          find_at_front ⟨after, by simp⟩
        cases found.symm.trans atFront
        rw [lines_until_stop oneLine]
        simp
      · have absent : ¬ '\n' :: (stop ++ ['\n']) <+: '\n' :: (line ++ '\n' :: after) := by
          intro occurs
          exact same (prefix_of_line oneLine noNewline (List.cons_prefix_cons.mp occurs).2).symm
        rw [find_cons_of_absent absent, find_skip rfl noNewline, Option.map_map] at found
        obtain ⟨later, foundLater, rfl⟩ := Option.map_eq_some_iff.mp found
        obtain ⟨before, inLines, left⟩ := ih after.length
          (by simp only [← size, List.length_append, List.length_cons]; omega) after foundLater rfl
        rw [lines_until_line noNewline same]
        refine ⟨?_, List.forall_mem_cons.mpr ⟨noNewline, inLines⟩, ?_⟩
        · simp only [Function.comp_apply, List.take_succ_cons, List.flatMap_cons, ← before]
          rw [Nat.add_comm later, List.take_length_add_append]
          rfl
        · have position : (later + line.length + 1) + stop.length + 1 =
              line.length + ((later + stop.length + 1) + 1) := by omega
          rw [left, Function.comp_apply, position, List.drop_length_add_append]
          rfl

/-- A text put together from lines splits into them. -/
theorem split_lines {line : Bytes} {lines : List Bytes} (oneLine : '\n' ∉ line)
    (oneLines : ∀ other ∈ lines, '\n' ∉ other) :
    (line ++ lines.flatMap ('\n' :: ·)).splitOn '\n' = line :: lines := by
  induction lines generalizing line with
  | nil => simp [List.splitOn_eq_singleton oneLine]
  | cons next lines ih =>
      obtain ⟨here, after⟩ := List.forall_mem_cons.mp oneLines
      rw [List.flatMap_cons, List.cons_append, List.splitOn_append_cons_self,
        List.splitOn_eq_singleton oneLine, ih here after]
      rfl

/-! ## Segments of a stream -/

section Segments

variable {Item : Type}

/-- The pieces are contiguous segments of the stream that do not overlap, in
this order. -/
def Segments : List (List Item) → List Item → Prop
  | [], _ => True
  | piece :: later, stream =>
      ∃ skipped rest, stream = skipped ++ (piece ++ rest) ∧ Segments later rest

theorem segments_skip {pieces : List (List Item)} {stream : List Item} (skipped : List Item)
    (segments : Segments pieces stream) : Segments pieces (skipped ++ stream) := by
  cases pieces with
  | nil => trivial
  | cons piece later =>
      rcases segments with ⟨early, rest, split, more⟩
      exact ⟨skipped ++ early, rest, by rw [split, List.append_assoc], more⟩

theorem segments_append {pieces later : List (List Item)} {stream rest : List Item}
    (segments : Segments pieces stream) (more : Segments later rest) :
    Segments (pieces ++ later) (stream ++ rest) := by
  induction pieces generalizing stream with
  | nil => exact segments_skip stream more
  | cons piece pieces ih =>
      rcases segments with ⟨skipped, tail, split, inTail⟩
      refine ⟨skipped, tail ++ rest, ?_, ih inTail⟩
      rw [split, List.append_assoc, List.append_assoc]

theorem segments_extend {pieces : List (List Item)} {stream : List Item} (more : List Item)
    (segments : Segments pieces stream) : Segments pieces (stream ++ more) := by
  have nothing : Segments [] more := trivial
  have extended := segments_append segments nothing
  rwa [List.append_nil] at extended

end Segments

end RestfulWebserver.Library
