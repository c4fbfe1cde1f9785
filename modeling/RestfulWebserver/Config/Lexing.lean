import RestfulWebserver.Config.Parser

/-!
# The tokens of a text

The lexical grammar `ParseToken` follows: a relation between an input, the token
at its front and what is left of the input, with the words and quotes given as a
whole rather than byte by byte.
-/

namespace RestfulWebserver.Config

open Library

def lineEnds : List Char := ['\n', '\r']

def quotes : List Char := [singleQuote, doubleQuote]

def StartsWord (byte : Char) : Prop :=
  byte ∉ whitespace ∧ byte ∉ ['\x7b', '\x7d', '#', doubleQuote, singleQuote, ';']

def Free (stops : List Char) (text : Bytes) : Prop := ∀ byte ∈ text, byte ∉ stops

inductive Reads : Bytes → Token → Bytes → Prop where
  | blank {byte : Char} {input rest : Bytes} {token : Token} (blank : byte ∈ whitespace)
      (after : Reads input token rest) : Reads (byte :: input) token rest
  | startBlock (rest : Bytes) : Reads ('\x7b' :: rest) ⟨.startBlock, ['\x7b']⟩ rest
  | endBlock (rest : Bytes) : Reads ('\x7d' :: rest) ⟨.endBlock, ['\x7d']⟩ rest
  | statementEnd (rest : Bytes) : Reads (';' :: rest) ⟨.statementEnd, [';']⟩ rest
  | comment {body : Bytes} {stop : Char} (free : Free lineEnds body) (ended : stop ∈ lineEnds)
      (rest : Bytes) : Reads ('#' :: (body ++ stop :: rest)) ⟨.comment, '#' :: body⟩ rest
  | quoted {quote : Char} {body : Bytes} (opened : quote ∈ quotes) (free : Free [quote] body)
      (rest : Bytes) :
      Reads (quote :: (body ++ quote :: rest)) ⟨.normal, quote :: (body ++ [quote])⟩ rest
  | word {first stop : Char} {body : Bytes} (starts : StartsWord first)
      (free : Free wordEnds body) (ended : stop ∈ wordEnds) (rest : Bytes) :
      Reads (first :: (body ++ stop :: rest)) ⟨.normal, first :: body⟩ (stop :: rest)
  | nothing : Reads [] ⟨.eof, []⟩ []
  | openComment {body : Bytes} (free : Free lineEnds body) :
      Reads ('#' :: body) ⟨.eof, '#' :: body⟩ []
  | openWord {first : Char} {body : Bytes} (starts : StartsWord first)
      (free : Free wordEnds body) : Reads (first :: body) ⟨.eof, first :: body⟩ []
  | openQuote {quote : Char} {body : Bytes} (opened : quote ∈ quotes)
      (free : Free [quote] body) : Reads (quote :: body) ⟨.error, quote :: body⟩ []

theorem free_cons (stops : List Char) (byte : Char) (rest : Bytes) :
    Free stops (byte :: rest) ↔ byte ∉ stops ∧ Free stops rest := List.forall_mem_cons

theorem free_nil (stops : List Char) : Free stops [] := List.forall_mem_nil _

theorem free_or_stop (stops : List Char) (text : Bytes) :
    Free stops text ∨
      ∃ body stop rest, text = body ++ stop :: rest ∧ stop ∈ stops ∧ Free stops body := by
  induction text with
  | nil => exact .inl (free_nil stops)
  | cons byte rest ih =>
      by_cases here : byte ∈ stops
      · exact .inr ⟨[], byte, rest, rfl, here, free_nil stops⟩
      · rcases ih with free | ⟨body, stop, after, rfl, ended, free⟩
        · exact .inl ((free_cons _ _ _).mpr ⟨here, free⟩)
        · exact .inr ⟨byte :: body, stop, after, rfl, ended, (free_cons _ _ _).mpr ⟨here, free⟩⟩

section Runs

variable {value body : Bytes} (rest : Bytes)

theorem scan_word (free : Free wordEnds body) :
    scanToken .normal value (body ++ rest) = scanToken .normal (value ++ body) rest := by
  induction body generalizing value with
  | nil => simp
  | cons byte body ih =>
      obtain ⟨here, after⟩ := (free_cons _ _ _).mp free
      simp [scanToken, if_neg here, ih after]

theorem scan_comment (free : Free lineEnds body) :
    scanToken .comment value (body ++ rest) = scanToken .comment (value ++ body) rest := by
  induction body generalizing value with
  | nil => simp
  | cons byte body ih =>
      obtain ⟨here, after⟩ := (free_cons _ _ _).mp free
      have inLine : ¬ (byte = '\n' ∨ byte = '\r') := by simpa [lineEnds] using here
      simp [scanToken, if_neg inLine, ih after]

def quoteState (quote : Char) : TokenParserState :=
  if quote = singleQuote then .singleQuote else .doubleQuote

theorem scan_quote_step {quote : Char} (opened : quote ∈ quotes) (byte : Char) :
    scanToken (quoteState quote) value (byte :: rest) =
      if byte = quote then (⟨.normal, value ++ [byte]⟩, rest)
      else scanToken (quoteState quote) (value ++ [byte]) rest := by
  simp only [quotes, List.mem_cons, List.not_mem_nil, or_false] at opened
  rcases opened with rfl | rfl
  · simp [quoteState, scanToken]
  · have distinct : doubleQuote ≠ singleQuote := by decide
    simp [quoteState, distinct, scanToken]

theorem scan_quote {quote : Char} (opened : quote ∈ quotes) (free : Free [quote] body) :
    scanToken (quoteState quote) value (body ++ rest) =
      scanToken (quoteState quote) (value ++ body) rest := by
  induction body generalizing value with
  | nil => simp
  | cons byte body ih =>
      obtain ⟨here, after⟩ := (free_cons _ _ _).mp free
      have inside : byte ≠ quote := by simpa using here
      rw [List.cons_append, scan_quote_step _ opened, if_neg inside, ih after, List.append_assoc]
      rfl

end Runs

theorem parse_blank {byte : Char} (blank : byte ∈ whitespace) (rest : Bytes) :
    parseToken (byte :: rest) = parseToken rest := by
  simp only [whitespace, List.mem_cons, List.not_mem_nil, or_false] at blank
  rcases blank with rfl | rfl | rfl | rfl <;> rfl

theorem parse_quote {quote : Char} (opened : quote ∈ quotes) (rest : Bytes) :
    parseToken (quote :: rest) = scanToken (quoteState quote) [quote] rest := by
  simp only [quotes, List.mem_cons, List.not_mem_nil, or_false] at opened
  rcases opened with rfl | rfl <;> rfl

theorem parse_word {first : Char} (starts : StartsWord first) (rest : Bytes) :
    parseToken (first :: rest) = scanToken .normal [first] rest := by
  obtain ⟨solid, plain⟩ := starts
  simp only [List.mem_cons, List.not_mem_nil, or_false, not_or] at plain
  obtain ⟨notOpening, notClosing, notHash, notDouble, notSingle, notStop⟩ := plain
  simp [parseToken, scanToken, notOpening, notClosing, notHash, notDouble, notSingle, notStop,
    solid]

theorem parse_of_reads {input rest : Bytes} {token : Token} (reads : Reads input token rest) :
    parseToken input = (token, rest) := by
  induction reads with
  | blank blank after ih => rw [parse_blank blank, ih]
  | startBlock rest => rfl
  | endBlock rest => rfl
  | statementEnd rest => rfl
  | comment free ended rest =>
      change scanToken .comment ['#'] _ = _
      have lineEnd := ended
      simp only [lineEnds, List.mem_cons, List.not_mem_nil, or_false] at lineEnd
      rw [scan_comment _ free, scanToken, if_pos lineEnd]
      rfl
  | quoted opened free rest =>
      rw [parse_quote opened, scan_quote _ opened free, scan_quote_step _ opened, if_pos rfl]
      simp
  | word starts free ended rest =>
      rw [parse_word starts, scan_word _ free, scanToken, if_pos ended]
      rfl
  | nothing => rfl
  | @openComment body free =>
      change scanToken .comment ['#'] _ = _
      rw [← List.append_nil body, scan_comment _ free, List.append_nil]
      rfl
  | @openWord first body starts free =>
      rw [parse_word starts, ← List.append_nil body, scan_word _ free, List.append_nil]
      rfl
  | @openQuote quote body opened free =>
      rw [parse_quote opened, ← List.append_nil body, scan_quote _ opened free, List.append_nil]
      simp only [quotes, List.mem_cons, List.not_mem_nil, or_false] at opened
      rcases opened with rfl | rfl <;> rfl

theorem reads_total (input : Bytes) : ∃ token rest, Reads input token rest := by
  induction input with
  | nil => exact ⟨_, _, .nothing⟩
  | cons byte input ih =>
      by_cases blank : byte ∈ whitespace
      · obtain ⟨token, rest, reads⟩ := ih
        exact ⟨token, rest, .blank blank reads⟩
      by_cases special : byte ∈ ['\x7b', '\x7d', '#', doubleQuote, singleQuote, ';']
      · by_cases opened : byte ∈ quotes
        · rcases free_or_stop [byte] input with free | ⟨body, stop, rest, rfl, ended, free⟩
          · exact ⟨_, _, .openQuote opened free⟩
          · cases List.mem_singleton.mp ended
            exact ⟨_, _, .quoted opened free rest⟩
        · simp only [quotes, List.mem_cons, List.not_mem_nil, or_false, not_or] at special opened
          rcases special with rfl | rfl | rfl | rfl | rfl | rfl
          · exact ⟨_, _, .startBlock input⟩
          · exact ⟨_, _, .endBlock input⟩
          · rcases free_or_stop lineEnds input with free | ⟨body, stop, rest, rfl, ended, free⟩
            · exact ⟨_, _, .openComment free⟩
            · exact ⟨_, _, .comment free ended rest⟩
          · exact absurd rfl opened.2
          · exact absurd rfl opened.1
          · exact ⟨_, _, .statementEnd input⟩
      · rcases free_or_stop wordEnds input with free | ⟨body, stop, rest, rfl, ended, free⟩
        · exact ⟨_, _, .openWord ⟨blank, special⟩ free⟩
        · exact ⟨_, _, .word ⟨blank, special⟩ free ended rest⟩

/-- `ParseToken` reads exactly by the lexical grammar. -/
theorem parse_token_iff (input rest : Bytes) (token : Token) :
    parseToken input = (token, rest) ↔ Reads input token rest := by
  constructor
  · intro parsed
    obtain ⟨other, left, reads⟩ := reads_total input
    cases (parse_of_reads reads).symm.trans parsed
    exact reads
  · exact parse_of_reads

theorem parse_token_reads (input : Bytes) :
    Reads input (parseToken input).1 (parseToken input).2 := (parse_token_iff _ _ _).mp rfl

/-! ## The tokens of a whole text -/

theorem tokens_of_last {input rest : Bytes} {token : Token} (reads : Reads input token rest)
    (last : token.type.isLast) : tokens input = [token] := by
  rw [tokens, parse_of_reads reads, if_pos last]

theorem tokens_cons {input rest : Bytes} {token : Token} (reads : Reads input token rest)
    (more : ¬ token.type.isLast) : tokens input = token :: tokens rest := by
  rw [tokens, parse_of_reads reads, if_neg more]

theorem tokens_blank {byte : Char} (blank : byte ∈ whitespace) (rest : Bytes) :
    tokens (byte :: rest) = tokens rest := by
  rw [tokens, parse_blank blank, ← tokens]

theorem tokens_end (input : Bytes) :
    ∃ read last, tokens input = read ++ [last] ∧ (∀ token ∈ read, ¬ token.type.isLast) ∧
      last.type.isLast := by
  induction input using tokens.induct with
  | case1 input last =>
      rw [tokens, if_pos last]
      exact ⟨[], _, rfl, List.forall_mem_nil _, last⟩
  | case2 input more ih =>
      obtain ⟨read, last, delivered, inside, ended⟩ := ih
      rw [tokens, if_neg more, delivered]
      exact ⟨_ :: read, last, rfl, List.forall_mem_cons.mpr ⟨more, inside⟩, ended⟩

end RestfulWebserver.Config
