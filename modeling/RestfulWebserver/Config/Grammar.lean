import RestfulWebserver.Config.Lexing

/-!
# What the parser accepts

`Config → Stmt*` and `Stmt → NORMAL+ ';' | NORMAL+ '{' Config '}'`: the parser
follows the machine that reads this grammar with a stack of blocks. Its pointers
are the places of the blocks still open and its last token says whether a
statement has begun.
-/

namespace RestfulWebserver.Config

open Library
open Library.Blocks

def Token.symbol (token : Token) : Option (Symbol Bytes) :=
  match token.type with
  | .normal => some (.word token.value)
  | .statementEnd => some .stop
  | .startBlock => some .opening
  | .endBlock => some .closing
  | _ => none

def symbols : List Token → Option (List (Symbol Bytes))
  | [] => some []
  | token :: rest =>
      if token.type = .comment then symbols rest
      else token.symbol.bind fun symbol => (symbols rest).map (symbol :: ·)

def begun (words : List Bytes) : NginxConfig := if words = [] then [] else [.plain words]

def outers : List (Frame Bytes) → List Address
  | [] => []
  | _ :: frames => address frames :: outers frames

/-- The parser has read as far as the place says. -/
structure Follows (parser : Parser) (place : Place Bytes) : Prop where
  config : parser.config = plug place.frames (place.entries ++ begun place.words)
  top : parser.top = address place.frames
  below : parser.below = outers place.frames
  worded : parser.lastTokenType = .normal ↔ place.words ≠ []
  kind : parser.lastTokenType ∈
    [TokenType.start, .normal, .startBlock, .endBlock, .statementEnd]
  atStart : parser.lastTokenType = .start → place.frames = []
  inBlock : parser.lastTokenType = .startBlock → place.frames ≠ []

theorem follows_start : Follows (Parser.start []) Place.start := by
  constructor <;> simp [Parser.start, Place.start, plug, begun, address, outers]

theorem at_back (entries : NginxConfig) (statement : NginxConfigStatement)
    (change : NginxConfigStatement → NginxConfigStatement) :
    NginxConfig.atBack change (entries ++ [statement]) = entries ++ [change statement] := by
  simp [NginxConfig.atBack, modify_end]

section Steps

variable {parser : Parser} {place : Place Bytes} {token : Token}

theorem step_comment (comment : token.type = .comment) : parser.step token = .ok parser := by
  simp only [Parser.step, comment]

theorem step_word (follows : Follows parser place) (normal : token.type = .normal) :
    ∃ next, parser.step token = .ok next ∧
      Follows next { place with words := place.words ++ [token.value] } := by
  have allowed := follows.kind
  have accepted : parser.lastTokenType = .start ∨ parser.lastTokenType = .statementEnd ∨
      parser.lastTokenType = .startBlock ∨ parser.lastTokenType = .endBlock ∨
      parser.lastTokenType = .normal := by
    simp only [List.mem_cons, List.not_mem_nil, or_false] at allowed
    tauto
  simp only [Parser.step, normal, if_pos accepted]
  refine ⟨_, rfl, ?_, follows.top, follows.below, ?_, ?_, ?_, ?_⟩
  · rw [follows.config, follows.top]
    by_cases worded : place.words = []
    · have fresh : parser.lastTokenType ≠ .normal :=
        fun last => (follows.worded.mp last) worded
      simp only [if_pos fresh, modify_at_plug, worded, begun, if_true, List.append_nil, at_back]
      simp [NginxConfigStatement.pushToken]
    · have last : parser.lastTokenType = .normal := follows.worded.mpr worded
      simp [last, modify_at_plug, begun, worded, at_back, NginxConfigStatement.pushToken]
  all_goals simp

theorem step_stop (follows : Follows parser place) (stop : token.type = .statementEnd) :
    match place.advance .stop with
    | none => parser.step token = .error false
    | some after => ∃ next, parser.step token = .ok next ∧ Follows next after := by
  have worded := follows.worded
  simp only [Parser.step, Place.advance, stop]
  by_cases empty : place.words = []
  · simp only [empty, if_true]
    rw [if_pos]
    exact fun last => worded.mp last empty
  · have last : parser.lastTokenType = .normal := worded.mpr empty
    simp only [if_neg empty, last, ne_eq, not_true_eq_false, if_false]
    refine ⟨_, rfl, ?_, follows.top, follows.below, ?_, ?_, ?_, ?_⟩
    · rw [follows.config]
      simp [begun, empty]
    all_goals simp

theorem step_opening (follows : Follows parser place) (opening : token.type = .startBlock) :
    match place.advance .opening with
    | none => parser.step token = .error false
    | some after => ∃ next, parser.step token = .ok next ∧ Follows next after := by
  have worded := follows.worded
  simp only [Parser.step, Place.advance, opening]
  by_cases empty : place.words = []
  · simp only [empty, if_true]
    rw [if_pos]
    exact fun last => worded.mp last empty
  · have last : parser.lastTokenType = .normal := worded.mpr empty
    simp only [if_neg empty, last, ne_eq, not_true_eq_false, if_false]
    refine ⟨_, rfl, ?_, ?_, ?_, ?_, ?_, ?_, ?_⟩
    · rw [follows.config, follows.top, modify_at_plug]
      simp [begun, empty, at_back, plug, NginxConfigStatement.resetChild,
        NginxConfigStatement.tokens]
    · rw [follows.config, follows.top, entries_at_plug]
      simp [begun, empty, address]
    · simp [outers, follows.top, follows.below]
    all_goals simp

theorem step_closing (follows : Follows parser place) (closing : token.type = .endBlock) :
    match place.advance .closing with
    | none => parser.step token = .error false
    | some after => ∃ next, parser.step token = .ok next ∧ Follows next after := by
  obtain ⟨frames, entries, words⟩ := place
  have worded := follows.worded
  have allowed := follows.kind
  have below := follows.below
  simp only [Parser.step, Place.advance, closing]
  by_cases empty : words = []
  · have idle : parser.lastTokenType ≠ .normal := fun last => worded.mp last empty
    simp only [empty, if_true]
    cases frames with
    | nil =>
        simp only [outers] at below
        simp [below]
    | cons frame frames =>
        have started : parser.lastTokenType ≠ .start := by
          intro last
          simpa using follows.atStart last
        have accepted : ¬ (parser.lastTokenType ≠ .statementEnd ∧
            parser.lastTokenType ≠ .endBlock ∧ parser.lastTokenType ≠ .startBlock) := by
          simp only [List.mem_cons, List.not_mem_nil, or_false] at allowed
          tauto
        simp only [outers] at below
        simp only [if_neg accepted, below]
        refine ⟨_, rfl, ?_, rfl, rfl, ?_, ?_, ?_, ?_⟩
        · rw [follows.config]
          simp [begun, empty, plug]
        all_goals simp
  · have last : parser.lastTokenType = .normal := worded.mpr empty
    simp [empty, last]

/-- On a terminal the parser goes on exactly when the machine of the grammar
does, and stays with it. -/
theorem step_symbol (follows : Follows parser place) {symbol : Symbol Bytes}
    (terminal : token.symbol = some symbol) :
    match place.advance symbol with
    | none => parser.step token = .error false
    | some after => ∃ next, parser.step token = .ok next ∧ Follows next after := by
  obtain ⟨type, value⟩ := token
  cases type with
  | normal =>
      cases terminal
      exact step_word follows rfl
  | statementEnd =>
      cases terminal
      exact step_stop follows rfl
  | startBlock =>
      cases terminal
      exact step_opening follows rfl
  | endBlock =>
      cases terminal
      exact step_closing follows rfl
  | start => cases terminal
  | comment => cases terminal
  | eof => cases terminal
  | error => cases terminal

theorem step_eof (follows : Follows parser place) (eof : token.type = .eof) :
    parser.step token = .error true ∧ place.words = [] ∧ place.frames = [] ∨
      parser.step token = .error false ∧ ¬ (place.words = [] ∧ place.frames = []) := by
  have worded := follows.worded
  have allowed := follows.kind
  have atRoot : parser.below.isEmpty = true ↔ place.frames = [] := by
    rw [follows.below]
    cases place.frames <;> simp [outers]
  simp only [List.mem_cons, List.not_mem_nil, or_false] at allowed
  simp only [Parser.step, eof]
  rcases allowed with last | last | last | last | last
  · have root := follows.atStart last
    simp_all
  · simp_all
  · have inside := follows.inBlock last
    simp_all
  all_goals
    by_cases root : place.frames = []
    · simp_all
    · simp_all

end Steps

/-- The parser accepts from where it is exactly when the machine of the grammar
reads the rest to the end. -/
theorem run_iff_read {parser : Parser} {place : Place Bytes} (follows : Follows parser place)
    {read : List Token} (inside : ∀ token ∈ read, ¬ token.type.isLast) {last : Token}
    (eof : last.type = .eof) (config : NginxConfig) :
    parser.run (read ++ [last]) = (true, config) ↔
      ∃ terminals, symbols read = some terminals ∧
        place.read terminals = some ⟨[], config, []⟩ := by
  induction read generalizing parser place with
  | nil =>
      obtain ⟨frames, entries, words⟩ := place
      have built := follows.config
      simp only [List.nil_append, Parser.run, symbols, Option.some.injEq, exists_eq_left',
        Place.read, Place.mk.injEq]
      rcases step_eof follows eof with ⟨returned, rfl, rfl⟩ | ⟨returned, open_⟩
      · rw [returned]
        simp [built, plug, begun]
      · rw [returned]
        simp only [Prod.mk.injEq, Bool.false_eq_true, false_and, false_iff]
        tauto
  | cons token rest ih =>
      obtain ⟨here, insideRest⟩ := List.forall_mem_cons.mp inside
      simp only [List.cons_append, Parser.run, symbols]
      by_cases comment : token.type = .comment
      · rw [step_comment comment, if_pos comment]
        exact ih follows insideRest
      · rw [if_neg comment]
        cases terminal : token.symbol with
        | none =>
            have refused : parser.step token = .error false := by
              obtain ⟨type, value⟩ := token
              cases type <;> simp_all [Token.symbol, TokenType.isLast, Parser.step]
            simp [refused]
        | some symbol =>
            have step := step_symbol follows terminal
            cases advanced : place.advance symbol with
            | none =>
                simp only [advanced] at step
                simp [step, Place.read, advanced]
            | some after =>
                simp only [advanced] at step
                obtain ⟨next, stepped, followsNext⟩ := step
                simp [stepped, ih followsNext insideRest, Place.read, advanced]

def DerivesConfig (read : List Token) (config : NginxConfig) : Prop :=
  ∃ terminals, symbols read = some terminals ∧ Derives terminals config

theorem run_iff_derives {read : List Token} (inside : ∀ token ∈ read, ¬ token.type.isLast)
    {last : Token} (eof : last.type = .eof) (config : NginxConfig) :
    (Parser.start []).run (read ++ [last]) = (true, config) ↔ DerivesConfig read config := by
  rw [run_iff_read follows_start inside eof]
  simp only [DerivesConfig, read_start_iff]

theorem derives_config_unique {read : List Token} {config other : NginxConfig}
    (one : DerivesConfig read config) (two : DerivesConfig read other) : config = other := by
  obtain ⟨terminals, spelled, derives⟩ := one
  obtain ⟨same, spelledToo, derivesToo⟩ := two
  cases spelled.symm.trans spelledToo
  exact derives_unique derives derivesToo

/-- Whatever comment tokens stand between them, the tokens up to EOF are accepted
exactly when the others have a derivation, and the config that is built is the
only derivation: every statement in it has a token. -/
theorem parser_accepts_grammar (read : List Token)
    (inside : ∀ token ∈ read, ¬ token.type.isLast) (last : Token) (eof : last.type = .eof) :
    (((Parser.start []).run (read ++ [last])).1 = true ↔
      ∃ config, DerivesConfig read config) ∧
      (((Parser.start []).run (read ++ [last])).1 = true →
        DerivesConfig read ((Parser.start []).run (read ++ [last])).2 ∧
          (∀ other, DerivesConfig read other →
            other = ((Parser.start []).run (read ++ [last])).2) ∧
          Headed ((Parser.start []).run (read ++ [last])).2) := by
  have decides := run_iff_derives inside eof
  have derived : ((Parser.start []).run (read ++ [last])).1 = true →
      DerivesConfig read ((Parser.start []).run (read ++ [last])).2 := by
    intro accepted
    rw [← decides, ← accepted]
  constructor
  · constructor
    · exact fun accepted => ⟨_, derived accepted⟩
    · rintro ⟨config, derives⟩
      rw [(decides config).mpr derives]
  · intro accepted
    have derives := derived accepted
    refine ⟨derives, fun other otherDerives => derives_config_unique otherDerives derives, ?_⟩
    obtain ⟨terminals, _, derivation⟩ := derives
    exact ((derives_iff _ _).mp derivation).2

theorem parser_accepts_grammar_nested :
    let read : List Token := [⟨.normal, "location".toList⟩, ⟨.comment, "# files".toList⟩,
      ⟨.normal, "/static".toList⟩, ⟨.startBlock, ['\x7b']⟩, ⟨.normal, "root".toList⟩,
      ⟨.statementEnd, [';']⟩, ⟨.endBlock, ['\x7d']⟩]
    ((Parser.start []).run (read ++ [⟨.eof, []⟩])).1 = true ∧
      (((Parser.start []).run (read ++ [⟨.eof, []⟩])).1 = true ↔
        ∃ config, DerivesConfig read config) :=
  ⟨by decide, (parser_accepts_grammar _ (by decide) ⟨.eof, []⟩ rfl).1⟩

/-! ## The same for a text -/

theorem step_returns_true {parser : Parser} {token : Token}
    (returned : parser.step token = .error true) : token.type = .eof := by
  obtain ⟨type, value⟩ := token
  cases type with
  | eof => rfl
  | start | comment | error => cases returned
  | normal | statementEnd | startBlock =>
      simp only [Parser.step] at returned
      split at returned <;> cases returned
  | endBlock =>
      simp only [Parser.step] at returned
      split at returned
      · cases returned
      · split at returned <;> cases returned

theorem run_error {read : List Token} (inside : ∀ token ∈ read, ¬ token.type.isLast)
    {last : Token} (broken : last.type = .error) (parser : Parser) :
    (parser.run (read ++ [last])).1 = false := by
  induction read generalizing parser with
  | nil => simp [Parser.run, Parser.step, broken]
  | cons token rest ih =>
      obtain ⟨here, insideRest⟩ := List.forall_mem_cons.mp inside
      simp only [List.cons_append, Parser.run]
      cases stepped : parser.step token with
      | ok next => exact ih insideRest next
      | error returned =>
          cases returned with
          | false => rfl
          | true => exact absurd (Or.inl (step_returns_true stepped)) here

/-- A text is accepted exactly when it ends outside a quote and its tokens have
a derivation. -/
theorem parse_iff_derives (input : Bytes) (config : NginxConfig) :
    parse input [] = (true, config) ↔
      ∃ read last, tokens input = read ++ [last] ∧ (∀ token ∈ read, ¬ token.type.isLast) ∧
        last.type = .eof ∧ DerivesConfig read config := by
  rw [parse]
  constructor
  · intro accepted
    obtain ⟨read, last, delivered, inside, eof | broken⟩ := tokens_end input
    · rw [delivered, run_iff_derives inside eof] at accepted
      exact ⟨read, last, delivered, inside, eof, accepted⟩
    · rw [delivered] at accepted
      simpa [accepted] using run_error inside broken (Parser.start [])
  · rintro ⟨read, last, delivered, inside, eof, derives⟩
    rw [delivered, run_iff_derives inside eof]
    exact derives

end RestfulWebserver.Config
