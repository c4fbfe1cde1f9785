import RestfulWebserver.Library.Blocks
import RestfulWebserver.Library.Text

/-!
# The configuration parser

`ParseToken` reads one token off the stream, `Parse` hangs the tokens into a tree
of statements. The stack holds pointers to the configs that are open; a pointer
is modelled by the address of the config in the tree under construction.
-/

namespace RestfulWebserver.Config

open Library
open Library.Blocks

inductive TokenType where
  | start
  | normal
  | startBlock
  | endBlock
  | comment
  | statementEnd
  | eof
  | error
  deriving DecidableEq, Repr

inductive TokenParserState where
  | initialWhitespace
  | singleQuote
  | doubleQuote
  | comment
  | normal
  deriving DecidableEq, Repr

structure Token where
  type : TokenType
  value : Bytes
  deriving DecidableEq, Repr

def singleQuote : Char := '\''
def doubleQuote : Char := '"'

def whitespace : List Char := [' ', '\t', '\n', '\r']

/-- What ends a bare word and is put back. A carriage return does not. -/
def wordEnds : List Char := [' ', '\t', '\n', ';', '\x7b', '\x7d']

/-- The loop of `ParseToken`: the token and what the stream still holds. -/
def scanToken : TokenParserState → Bytes → Bytes → Token × Bytes
  | state, value, [] =>
      if state = .singleQuote ∨ state = .doubleQuote then (⟨.error, value⟩, [])
      else (⟨.eof, value⟩, [])
  | .initialWhitespace, value, byte :: rest =>
      if byte = '\x7b' then (⟨.startBlock, [byte]⟩, rest)
      else if byte = '\x7d' then (⟨.endBlock, [byte]⟩, rest)
      else if byte = '#' then scanToken .comment [byte] rest
      else if byte = doubleQuote then scanToken .doubleQuote [byte] rest
      else if byte = singleQuote then scanToken .singleQuote [byte] rest
      else if byte = ';' then (⟨.statementEnd, [byte]⟩, rest)
      else if byte ∈ whitespace then scanToken .initialWhitespace value rest
      else scanToken .normal (value ++ [byte]) rest
  | .singleQuote, value, byte :: rest =>
      if byte = singleQuote then (⟨.normal, value ++ [byte]⟩, rest)
      else scanToken .singleQuote (value ++ [byte]) rest
  | .doubleQuote, value, byte :: rest =>
      if byte = doubleQuote then (⟨.normal, value ++ [byte]⟩, rest)
      else scanToken .doubleQuote (value ++ [byte]) rest
  | .comment, value, byte :: rest =>
      if byte = '\n' ∨ byte = '\r' then (⟨.comment, value⟩, rest)
      else scanToken .comment (value ++ [byte]) rest
  | .normal, value, byte :: rest =>
      if byte ∈ wordEnds then (⟨.normal, value⟩, byte :: rest)
      else scanToken .normal (value ++ [byte]) rest

def parseToken (input : Bytes) : Token × Bytes := scanToken .initialWhitespace [] input

def TokenType.isLast (type : TokenType) : Prop := type = .eof ∨ type = .error

instance (type : TokenType) : Decidable type.isLast := inferInstanceAs (Decidable (_ ∨ _))

theorem scan_token_rest (state : TokenParserState) (value input : Bytes) :
    (scanToken state value input).2.length ≤ input.length := by
  induction input generalizing state value with
  | nil =>
      rw [scanToken]
      split <;> simp
  | cons byte rest ih =>
      have shorter := fun state value => Nat.le_succ_of_le (ih state value)
      cases state <;> simp only [scanToken, List.length_cons] <;> split_ifs <;>
        first | exact shorter _ _ | simp

theorem parse_token_shortens {input : Bytes} (more : ¬ (parseToken input).1.type.isLast) :
    (parseToken input).2.length < input.length := by
  cases input with
  | nil => simp [parseToken, scanToken, TokenType.isLast] at more
  | cons byte rest =>
      have shorter := fun state value => Nat.lt_succ_of_le (scan_token_rest state value rest)
      simp only [parseToken, scanToken, List.length_cons]
      split_ifs <;> first | exact shorter _ _ | simp

def tokens (input : Bytes) : List Token :=
  if (parseToken input).1.type.isLast then [(parseToken input).1]
  else (parseToken input).1 :: tokens (parseToken input).2
termination_by input.length
decreasing_by exact parse_token_shortens (by assumption)

/-! ## The tree -/

abbrev NginxConfigStatement := Entry Bytes

abbrev NginxConfig := List NginxConfigStatement

def NginxConfigStatement.tokens : NginxConfigStatement → List Bytes
  | .plain tokens => tokens
  | .block tokens _ => tokens

def NginxConfigStatement.childBlock : NginxConfigStatement → Option NginxConfig
  | .plain _ => none
  | .block _ child => some child

def NginxConfigStatement.pushToken (token : Bytes) : NginxConfigStatement → NginxConfigStatement
  | .plain tokens => .plain (tokens ++ [token])
  | .block tokens child => .block (tokens ++ [token]) child

def NginxConfigStatement.resetChild (statement : NginxConfigStatement) : NginxConfigStatement :=
  .block (NginxConfigStatement.tokens statement) []

/-- A change to `statements_.back()`. -/
def NginxConfig.atBack (change : NginxConfigStatement → NginxConfigStatement)
    (statements : NginxConfig) : NginxConfig :=
  statements.modify (statements.length - 1) change

/-! ## The parser -/

structure Parser where
  config : NginxConfig
  /-- `config_stack`: its top, and what is under it. The root is never popped. -/
  top : Address
  below : List Address
  lastTokenType : TokenType

def Parser.start (config : NginxConfig) : Parser where
  config := config
  top := []
  below := []
  lastTokenType := .start

/-- One turn of the loop in `Parse`: the next state, or what is returned. -/
def Parser.step (parser : Parser) (token : Token) : Except Bool Parser :=
  let last := parser.lastTokenType
  match token.type with
  | .error => .error false
  | .comment => .ok parser
  | .start => .error false
  | .normal =>
      if last = .start ∨ last = .statementEnd ∨ last = .startBlock ∨ last = .endBlock ∨
          last = .normal then
        let opened :=
          if last ≠ .normal then modifyAt parser.top (· ++ [Entry.plain []]) parser.config
          else parser.config
        .ok { parser with
          config := modifyAt parser.top
            (NginxConfig.atBack (NginxConfigStatement.pushToken token.value)) opened
          lastTokenType := .normal }
      else .error false
  | .statementEnd =>
      if last ≠ .normal then .error false else .ok { parser with lastTokenType := .statementEnd }
  | .startBlock =>
      if last ≠ .normal then .error false
      else
        .ok {
          config := modifyAt parser.top (NginxConfig.atBack NginxConfigStatement.resetChild)
            parser.config
          top := parser.top ++ [(entriesAt parser.top parser.config).length - 1]
          below := parser.top :: parser.below
          lastTokenType := .startBlock }
  | .endBlock =>
      if last ≠ .statementEnd ∧ last ≠ .endBlock ∧ last ≠ .startBlock then .error false
      else
        match parser.below with
        | [] => .error false
        | outer :: below =>
            .ok { parser with top := outer, below := below, lastTokenType := .endBlock }
  | .eof =>
      if last = .statementEnd ∨ last = .endBlock ∨ last = .start then .error parser.below.isEmpty
      else .error false

def Parser.run (parser : Parser) : List Token → Bool × NginxConfig
  | [] => (false, parser.config)
  | token :: rest =>
      match parser.step token with
      | .error returned => (returned, parser.config)
      | .ok next => next.run rest

/-- `Parse(config_file, config)`: what it returns and the config it leaves. -/
def parse (input : Bytes) (config : NginxConfig) : Bool × NginxConfig :=
  (Parser.start config).run (tokens input)

/-! ## Printing -/

def indentation (depth : Nat) : Bytes := (List.replicate depth "  ".toList).flatten

def joined : List Bytes → Bytes
  | [] => []
  | [token] => token
  | token :: rest => token ++ ' ' :: joined rest

mutual

def NginxConfigStatement.toString (depth : Nat) : NginxConfigStatement → Bytes
  | .plain tokens => indentation depth ++ joined tokens ++ ";".toList ++ "\n".toList
  | .block tokens child =>
      indentation depth ++ joined tokens ++ " \x7b\n".toList ++
        NginxConfig.toString (depth + 1) child ++ indentation depth ++ "\x7d".toList ++ "\n".toList

def NginxConfig.toString (depth : Nat) : NginxConfig → Bytes
  | [] => []
  | statement :: rest =>
      NginxConfigStatement.toString depth statement ++ NginxConfig.toString depth rest

end

end RestfulWebserver.Config
