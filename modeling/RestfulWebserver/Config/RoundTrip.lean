import RestfulWebserver.Config.Grammar

/-!
# Printing and reading back

A token the parser can have read is read again, as one token, wherever a
delimiter follows it. The printers put a delimiter after every token, so the
printed text delivers the symbols that spell the tree.
-/

namespace RestfulWebserver.Config

open Library
open Library.Blocks

/-- A string `ParseToken` can return as a NORMAL token. -/
def IsNormal (token : Bytes) : Prop :=
  ∃ input rest, parseToken input = (⟨.normal, token⟩, rest)

def Printable (config : NginxConfig) : Prop :=
  Every (fun tokens => tokens ≠ [] ∧ ∀ token ∈ tokens, IsNormal token) config

def mark : Symbol Bytes → Token
  | .word value => ⟨.normal, value⟩
  | .stop => ⟨.statementEnd, [';']⟩
  | .opening => ⟨.startBlock, ['\x7b']⟩
  | .closing => ⟨.endBlock, ['\x7d']⟩

theorem normal_cases {input rest value : Bytes} (reads : Reads input ⟨.normal, value⟩ rest) :
    (∃ first body, value = first :: body ∧ StartsWord first ∧ Free wordEnds body) ∨
      ∃ quote body, value = quote :: (body ++ [quote]) ∧ quote ∈ quotes ∧ Free [quote] body := by
  generalize same : (⟨.normal, value⟩ : Token) = token at reads
  induction reads with
  | blank blank after ih => exact ih same
  | quoted opened free rest =>
      cases same
      exact .inr ⟨_, _, rfl, opened, free⟩
  | word starts free ended rest =>
      cases same
      exact .inl ⟨_, _, rfl, starts, free⟩
  | startBlock | endBlock | statementEnd | comment | nothing | openComment | openWord | openQuote =>
      cases same

theorem reads_again {token : Bytes} (normal : IsNormal token) {stop : Char}
    (ended : stop ∈ wordEnds) (rest : Bytes) :
    Reads (token ++ stop :: rest) ⟨.normal, token⟩ (stop :: rest) := by
  obtain ⟨input, left, parsed⟩ := normal
  rcases normal_cases ((parse_token_iff _ _ _).mp parsed) with
    ⟨first, body, rfl, starts, free⟩ | ⟨quote, body, rfl, opened, free⟩
  · exact .word starts free ended rest
  · have reads := Reads.quoted opened free (stop :: rest)
    simpa using reads

theorem tokens_normal {token : Bytes} (normal : IsNormal token) {stop : Char}
    (ended : stop ∈ wordEnds) (rest : Bytes) :
    tokens (token ++ stop :: rest) = ⟨.normal, token⟩ :: tokens (stop :: rest) :=
  tokens_cons (reads_again normal ended rest) (by simp [TokenType.isLast])

theorem tokens_indented (depth : Nat) (rest : Bytes) :
    tokens (indentation depth ++ rest) = tokens rest := by
  induction depth with
  | zero => rfl
  | succ depth ih =>
      change tokens (' ' :: ' ' :: (indentation depth ++ rest)) = _
      rw [tokens_blank (by decide), tokens_blank (by decide), ih]

theorem tokens_joined {words : List Bytes} (headed : words ≠ [])
    (normal : ∀ token ∈ words, IsNormal token) {stop : Char} (ended : stop ∈ wordEnds)
    (rest : Bytes) :
    tokens (joined words ++ stop :: rest) =
      (words.map Symbol.word).map mark ++ tokens (stop :: rest) := by
  induction words with
  | nil => exact absurd rfl headed
  | cons token words ih =>
      obtain ⟨here, after⟩ := List.forall_mem_cons.mp normal
      cases words with
      | nil => exact tokens_normal here ended rest
      | cons next words =>
          rw [joined, List.append_assoc, List.cons_append, tokens_normal here (by decide),
            tokens_blank (by decide), ih (by simp) after]
          · rfl
          · simp

theorem mark_not_last (symbol : Symbol Bytes) : ¬ (mark symbol).type.isLast := by
  cases symbol <;> simp [mark, TokenType.isLast]

theorem tokens_stop (rest : Bytes) : tokens (';' :: rest) = mark .stop :: tokens rest :=
  tokens_cons (.statementEnd rest) (mark_not_last _)

theorem tokens_opening (rest : Bytes) : tokens ('\x7b' :: rest) = mark .opening :: tokens rest :=
  tokens_cons (.startBlock rest) (mark_not_last _)

theorem tokens_closing (rest : Bytes) : tokens ('\x7d' :: rest) = mark .closing :: tokens rest :=
  tokens_cons (.endBlock rest) (mark_not_last _)

/-- The printed text delivers what spells the tree, whatever follows it. -/
theorem tokens_printed : (config : NginxConfig) → Printable config → (depth : Nat) →
    (more : Bytes) →
    tokens (NginxConfig.toString depth config ++ more) = (spell config).map mark ++ tokens more
  | [], _, depth, more => by simp [NginxConfig.toString, spell]
  | .plain words :: rest, printable, depth, more => by
      rw [Printable, Every] at printable
      obtain ⟨⟨headed, normal⟩, printableRest⟩ := printable
      have lineOver : tokens ('\n' :: (NginxConfig.toString depth rest ++ more)) =
          (spell rest).map mark ++ tokens more := by
        rw [tokens_blank (by decide), tokens_printed rest printableRest depth more]
      simp only [NginxConfig.toString, NginxConfigStatement.toString, List.append_assoc,
        tokens_indented]
      change tokens (joined words ++ ';' :: '\n' :: (NginxConfig.toString depth rest ++ more)) = _
      rw [tokens_joined headed normal (by decide), tokens_stop, lineOver]
      simp [spell]
  | .block words inner :: rest, printable, depth, more => by
      rw [Printable, Every] at printable
      obtain ⟨⟨headed, normal⟩, printableInner, printableRest⟩ := printable
      have lineOver : tokens ('\n' :: (NginxConfig.toString depth rest ++ more)) =
          (spell rest).map mark ++ tokens more := by
        rw [tokens_blank (by decide), tokens_printed rest printableRest depth more]
      simp only [NginxConfig.toString, NginxConfigStatement.toString, List.append_assoc,
        tokens_indented]
      change tokens (joined words ++ ' ' :: '\x7b' :: '\n' ::
        (NginxConfig.toString (depth + 1) inner ++ (indentation depth ++
          '\x7d' :: '\n' :: (NginxConfig.toString depth rest ++ more)))) = _
      rw [tokens_joined headed normal (by decide), tokens_blank (by decide), tokens_opening,
        tokens_blank (by decide), tokens_printed inner printableInner (depth + 1),
        tokens_indented, tokens_closing, lineOver]
      simp [spell]

theorem symbol_mark (symbol : Symbol Bytes) : (mark symbol).symbol = some symbol := by
  cases symbol <;> rfl

theorem symbols_marks (terminals : List (Symbol Bytes)) :
    symbols (terminals.map mark) = some terminals := by
  induction terminals with
  | nil => rfl
  | cons symbol rest ih =>
      have solid : (mark symbol).type ≠ .comment := by cases symbol <;> simp [mark]
      simp [symbols, solid, symbol_mark, ih]

theorem mark_inside (terminals : List (Symbol Bytes)) :
    ∀ token ∈ terminals.map mark, ¬ token.type.isLast := by
  intro token member
  obtain ⟨symbol, _, rfl⟩ := List.mem_map.mp member
  exact mark_not_last symbol

theorem printed_parses {config : NginxConfig} (printable : Printable config) (depth : Nat) :
    parse (NginxConfig.toString depth config) [] = (true, config) := by
  rw [parse_iff_derives]
  have delivered := tokens_printed config printable depth []
  rw [List.append_nil, tokens_of_last .nothing (.inl rfl)] at delivered
  refine ⟨_, _, delivered, mark_inside _, rfl, spell config, symbols_marks _, ?_⟩
  exact derives_spell config (Every.mono (fun _ both => both.1) config printable)

/-- What is printed at any depth parses, and to the tree it was printed from. -/
theorem parse_printed (config : NginxConfig) (printable : Printable config) (depth : Nat) :
    parse (NginxConfig.toString depth config) [] = (true, config) := printed_parses printable depth

theorem parse_printed_quoted :
    parse (NginxConfig.toString 3 [.block ["location".toList, "'a; \x7b'".toList]
      [.plain ["root".toList, "./data".toList]]]) [] =
        (true, [.block ["location".toList, "'a; \x7b'".toList]
          [.plain ["root".toList, "./data".toList]]]) := by
  refine parse_printed _ ?_ 3
  simp only [Printable, Every, List.forall_mem_cons, List.not_mem_nil, false_implies,
    implies_true, and_true]
  refine ⟨⟨by simp, ⟨"location ".toList, " ".toList, by decide⟩,
    ⟨"'a; \x7b'".toList, [], by decide⟩⟩, by simp, ⟨"root ".toList, " ".toList, by decide⟩,
    ⟨"./data;".toList, ";".toList, by decide⟩⟩

end RestfulWebserver.Config
