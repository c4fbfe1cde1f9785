import RestfulWebserver.Config.RoundTrip

/-!
# What is left out of the tree

Whitespace between tokens and comments are removed from the text on their own, by
a reader that knows nothing of tokens. The tree that is built spells the rest,
but for a bare word the text ends in: `ParseToken` leaves its loop at the end of
the stream and returns EOF in place of that word.
-/

namespace RestfulWebserver.Config

open Library
open Library.Blocks

/-- Where in a text a byte stands. -/
inductive Position where
  | between
  | word
  | quoted (quote : Char)
  | comment
  deriving DecidableEq, Repr

def Position.after : Position → Char → Position
  | .between, byte =>
      if byte ∈ whitespace then .between
      else if byte = '#' then .comment
      else if byte ∈ quotes then .quoted byte
      else if byte ∈ [';', '\x7b', '\x7d'] then .between
      else .word
  | .word, byte => if byte ∈ wordEnds then .between else .word
  | .quoted quote, byte => if byte = quote then .between else .quoted quote
  | .comment, byte => if byte ∈ lineEnds then .between else .comment

/-- Whether a byte is whitespace between tokens or part of a comment. -/
def Position.drops : Position → Char → Bool
  | .between, byte => byte ∈ whitespace ∨ byte = '#'
  | .word, byte => byte ∈ [' ', '\t', '\n']
  | .quoted _, _ => false
  | .comment, _ => true

/-- The text without whitespace between tokens and without comments. -/
def stripped : Position → Bytes → Bytes
  | _, [] => []
  | position, byte :: rest =>
      if position.drops byte then stripped (position.after byte) rest
      else byte :: stripped (position.after byte) rest

def endOf (position : Position) (text : Bytes) : Position := text.foldl Position.after position

/-- The text ends in a bare word with nothing after it. -/
def EndsInWord (text : Bytes) : Prop := endOf .between text = .word

instance (text : Bytes) : Decidable (EndsInWord text) := inferInstanceAs (Decidable (_ = _))

def flattened (config : NginxConfig) : Bytes :=
  (spell config).flatMap fun symbol => (mark symbol).value

/-- What the tree holds is the whole text, and the text ends in no unfinished
statement. -/
def ReadCompletely (text : Bytes) (config : NginxConfig) : Prop :=
  flattened config = stripped .between text ∧
    (stripped .between text = [] ∨ (stripped .between text).getLast? ∈ [some ';', some '\x7d'])

section Runs

variable {body : Bytes} (rest : Bytes)

theorem stripped_word (free : Free wordEnds body) :
    stripped .word (body ++ rest) = body ++ stripped .word rest ∧
      endOf .word (body ++ rest) = endOf .word rest := by
  induction body with
  | nil => simp
  | cons byte body ih =>
      obtain ⟨here, after⟩ := (free_cons _ _ _).mp free
      have solid : byte ∉ [' ', '\t', '\n'] := by
        intro member
        simp only [wordEnds, List.mem_cons, List.not_mem_nil, or_false, not_or] at here member
        tauto
      have ih := ih after
      simp only [endOf] at ih
      simp [stripped, endOf, Position.after, Position.drops, here, solid, ih]

theorem stripped_comment (free : Free lineEnds body) :
    stripped .comment (body ++ rest) = stripped .comment rest ∧
      endOf .comment (body ++ rest) = endOf .comment rest := by
  induction body with
  | nil => simp
  | cons byte body ih =>
      obtain ⟨here, after⟩ := (free_cons _ _ _).mp free
      have ih := ih after
      simp only [endOf] at ih
      simp [stripped, endOf, Position.after, Position.drops, here, ih]

theorem stripped_quote {quote : Char} (free : Free [quote] body) :
    stripped (.quoted quote) (body ++ rest) = body ++ stripped (.quoted quote) rest ∧
      endOf (.quoted quote) (body ++ rest) = endOf (.quoted quote) rest := by
  induction body with
  | nil => simp
  | cons byte body ih =>
      obtain ⟨here, after⟩ := (free_cons _ _ _).mp free
      have inside : byte ≠ quote := by simpa using here
      have ih := ih after
      simp only [endOf] at ih
      simp [stripped, endOf, Position.after, Position.drops, inside, ih]

end Runs

theorem stripped_at_stop {stop : Char} (ended : stop ∈ wordEnds) (rest : Bytes) :
    stripped .word (stop :: rest) = stripped .between (stop :: rest) ∧
      endOf .word (stop :: rest) = endOf .between (stop :: rest) := by
  simp only [wordEnds, List.mem_cons, List.not_mem_nil, or_false] at ended
  rcases ended with rfl | rfl | rfl | rfl | rfl | rfl <;> exact ⟨rfl, rfl⟩

theorem stripped_first {first : Char} (starts : StartsWord first) (rest : Bytes) :
    stripped .between (first :: rest) = first :: stripped .word rest ∧
      endOf .between (first :: rest) = endOf .word rest := by
  obtain ⟨solid, plain⟩ := starts
  simp only [List.mem_cons, List.not_mem_nil, or_false, not_or] at plain
  obtain ⟨notOpening, notClosing, notHash, notDouble, notSingle, notStop⟩ := plain
  simp [stripped, endOf, Position.after, Position.drops, solid, quotes, notOpening, notClosing,
    notHash, notDouble, notSingle, notStop]

theorem stripped_opened {quote : Char} (opened : quote ∈ quotes) (rest : Bytes) :
    stripped .between (quote :: rest) = quote :: stripped (.quoted quote) rest ∧
      endOf .between (quote :: rest) = endOf (.quoted quote) rest := by
  simp only [quotes, List.mem_cons, List.not_mem_nil, or_false] at opened
  rcases opened with rfl | rfl <;> exact ⟨rfl, rfl⟩

theorem stripped_blank {byte : Char} (blank : byte ∈ whitespace) (rest : Bytes) :
    stripped .between (byte :: rest) = stripped .between rest ∧
      endOf .between (byte :: rest) = endOf .between rest := by
  simp [stripped, endOf, Position.after, Position.drops, blank]

def Token.text (token : Token) : Bytes := if token.symbol.isSome then token.value else []

theorem stripped_of_reads {input rest : Bytes} {token : Token} (reads : Reads input token rest)
    (more : ¬ token.type.isLast) :
    stripped .between input = token.text ++ stripped .between rest ∧
      endOf .between input = endOf .between rest := by
  induction reads with
  | @blank byte input rest token blank after ih =>
      obtain ⟨kept, ends⟩ := stripped_blank blank input
      rw [kept, ends]
      exact ih more
  | startBlock rest => exact ⟨rfl, rfl⟩
  | endBlock rest => exact ⟨rfl, rfl⟩
  | statementEnd rest => exact ⟨rfl, rfl⟩
  | @comment body stop free ended rest =>
      change stripped .comment _ = _ ∧ endOf .comment _ = _
      obtain ⟨kept, ends⟩ := stripped_comment (stop :: rest) free
      rw [kept, ends]
      simp [stripped, endOf, Position.after, Position.drops, ended, Token.text, Token.symbol]
  | @quoted quote body opened free rest =>
      obtain ⟨front, start⟩ := stripped_opened opened (body ++ quote :: rest)
      obtain ⟨kept, ends⟩ := stripped_quote (quote :: rest) free
      rw [front, start, kept, ends]
      simp [stripped, endOf, Position.after, Position.drops, Token.text, Token.symbol]
  | @word first stop body starts free ended rest =>
      obtain ⟨front, start⟩ := stripped_first starts (body ++ stop :: rest)
      obtain ⟨kept, ends⟩ := stripped_word (stop :: rest) free
      obtain ⟨stopped, endsThere⟩ := stripped_at_stop ended rest
      rw [front, start, kept, ends, stopped, endsThere]
      simp [Token.text, Token.symbol]
  | nothing | openComment | openWord | openQuote => simp [TokenType.isLast] at more

theorem stripped_of_eof {input rest : Bytes} {token : Token} (reads : Reads input token rest)
    (eof : token.type = .eof) :
    EndsInWord input ∧ stripped .between input ≠ [] ∨
      ¬ EndsInWord input ∧ stripped .between input = [] := by
  unfold EndsInWord
  induction reads with
  | @blank byte input rest token blank after ih =>
      obtain ⟨kept, ends⟩ := stripped_blank blank input
      rw [kept, ends]
      exact ih eof
  | nothing => exact .inr ⟨by decide, rfl⟩
  | @openComment body free =>
      obtain ⟨kept, ends⟩ := stripped_comment [] free
      rw [List.append_nil] at kept ends
      refine .inr ⟨?_, kept⟩
      change endOf .comment body ≠ .word
      rw [ends]
      decide
  | @openWord first body starts free =>
      obtain ⟨front, start⟩ := stripped_first starts body
      obtain ⟨_, ends⟩ := stripped_word [] free
      rw [List.append_nil] at ends
      rw [front, start, ends]
      exact .inl ⟨rfl, List.cons_ne_nil _ _⟩
  | startBlock | endBlock | statementEnd | comment | quoted | word | openQuote => cases eof

theorem stripped_tokens {input : Bytes} {read : List Token} {last : Token}
    (delivered : tokens input = read ++ [last]) (eof : last.type = .eof) :
    ∃ dropped, stripped .between input = read.flatMap Token.text ++ dropped ∧
      (EndsInWord input ↔ dropped ≠ []) := by
  induction input using tokens.induct generalizing read with
  | case1 input isLast =>
      rw [tokens_of_last (parse_token_reads input) isLast] at delivered
      have alone : read = [] ∧ [last] = [(parseToken input).1] := by
        rcases List.append_eq_singleton_iff.mp delivered.symm with both | both
        · exact both
        · simp at both
      obtain ⟨rfl, same⟩ := alone
      cases same
      refine ⟨_, rfl, ?_⟩
      rcases stripped_of_eof (parse_token_reads input) eof with ⟨ends, kept⟩ | ⟨ends, kept⟩
      · simp [ends, kept]
      · simp [ends, kept]
  | case2 input more ih =>
      rw [tokens_cons (parse_token_reads input) more] at delivered
      obtain ⟨kept, ends⟩ := stripped_of_reads (parse_token_reads input) more
      cases read with
      | nil =>
          obtain ⟨same, _⟩ := List.cons_eq_cons.mp delivered
          rw [same] at more
          exact absurd (Or.inl eof) more
      | cons token read =>
          obtain ⟨same, rest⟩ := List.cons_eq_cons.mp delivered
          obtain ⟨dropped, text, ending⟩ := ih rest
          refine ⟨dropped, ?_, ?_⟩
          · rw [kept, text, same, List.flatMap_cons, List.append_assoc]
          · rwa [EndsInWord, ends]

theorem text_of_reads {input rest : Bytes} {token : Token} (reads : Reads input token rest)
    {symbol : Symbol Bytes} (terminal : token.symbol = some symbol) :
    token.text = (mark symbol).value := by
  have same : token.text = token.value := by simp [Token.text, terminal]
  rw [same]
  induction reads with
  | blank blank after ih => exact ih terminal same
  | startBlock | endBlock | statementEnd | quoted | word => cases terminal; rfl
  | comment | nothing | openComment | openWord | openQuote => cases terminal

theorem flattened_tokens {input : Bytes} {read : List Token} {last : Token}
    {terminals : List (Symbol Bytes)} (delivered : tokens input = read ++ [last])
    (spelled : symbols read = some terminals) :
    (terminals.flatMap fun symbol => (mark symbol).value) = read.flatMap Token.text := by
  induction input using tokens.induct generalizing read terminals with
  | case1 input isLast =>
      rw [tokens_of_last (parse_token_reads input) isLast] at delivered
      have empty : read = [] := by
        rcases List.append_eq_singleton_iff.mp delivered.symm with both | both
        · exact both.1
        · simp at both
      subst empty
      cases spelled
      rfl
  | case2 input more ih =>
      rw [tokens_cons (parse_token_reads input) more] at delivered
      cases read with
      | nil =>
          cases spelled
          rfl
      | cons token read =>
          obtain ⟨same, rest⟩ := List.cons_eq_cons.mp delivered
          rw [symbols] at spelled
          split_ifs at spelled with comment
          · have silent : token.text = [] := by simp [Token.text, Token.symbol, comment]
            rw [ih rest spelled, List.flatMap_cons, silent, List.nil_append]
          · obtain ⟨symbol, terminal, after⟩ := Option.bind_eq_some_iff.mp spelled
            obtain ⟨others, spelledRest, rfl⟩ := Option.map_eq_some_iff.mp after
            have text := text_of_reads (parse_token_reads input) (same ▸ terminal)
            rw [List.flatMap_cons, ih rest spelledRest, List.flatMap_cons, ← same, text]

theorem flattened_end (config : NginxConfig) :
    flattened config = [] ∨ (flattened config).getLast? ∈ [some ';', some '\x7d'] := by
  by_cases empty : config = []
  · left
    simp [empty, flattened, spell]
  · right
    obtain ⟨before, last, spelled, marked⟩ := spell_ends config empty
    rw [flattened, spelled, List.flatMap_append]
    rcases marked with rfl | rfl <;> simp [mark]

/-- A text that is accepted has been read completely exactly when it does not end
in a bare word. -/
theorem read_completely_iff (text : Bytes) (config : NginxConfig)
    (accepted : parse text [] = (true, config)) :
    ReadCompletely text config ↔ ¬ EndsInWord text := by
  obtain ⟨read, last, delivered, inside, eof, terminals, spelled, derives⟩ :=
    (parse_iff_derives text config).mp accepted
  obtain ⟨dropped, kept, ending⟩ := stripped_tokens delivered eof
  have held : flattened config = read.flatMap Token.text := by
    rw [← flattened_tokens delivered spelled, ((derives_iff _ _).mp derives).1, flattened]
  rw [ReadCompletely, ending, ne_eq, not_not]
  constructor
  · rintro ⟨whole, _⟩
    rw [kept, ← held] at whole
    exact List.self_eq_append_right.mp whole
  · rintro rfl
    rw [List.append_nil, ← held] at kept
    rw [kept]
    exact ⟨rfl, flattened_end config⟩

theorem read_completely_comment :
    ReadCompletely "port 80; # main".toList [.plain ["port".toList, "80".toList]] ↔
      ¬ EndsInWord "port 80; # main".toList := by
  refine read_completely_iff _ _ ?_
  have delivered : tokens "port 80; # main".toList = [⟨.normal, "port".toList⟩,
      ⟨.normal, "80".toList⟩, ⟨.statementEnd, [';']⟩, ⟨.eof, "# main".toList⟩] := by
    decide +kernel
  rw [parse, delivered]
  rfl

/-- The word after the last statement is neither in the tree nor an error. -/
theorem word_at_end_dropped :
    parse "port 80; foo".toList [] = (true, [.plain ["port".toList, "80".toList]]) ∧
      ¬ ReadCompletely "port 80; foo".toList [.plain ["port".toList, "80".toList]] := by
  constructor
  · have delivered : tokens "port 80; foo".toList = [⟨.normal, "port".toList⟩,
        ⟨.normal, "80".toList⟩, ⟨.statementEnd, [';']⟩, ⟨.eof, "foo".toList⟩] := by
      decide +kernel
    rw [parse, delivered]
    rfl
  · rintro ⟨whole, _⟩
    have kept : stripped .between "port 80; foo".toList = "port80;foo".toList := by decide
    rw [kept] at whole
    exact absurd whole (by simp [flattened, spell, mark])

end RestfulWebserver.Config
