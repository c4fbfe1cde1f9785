import RestfulWebserver.Config.RoundTrip

/-!
# Layout

What is skipped before a token holds the carriage return, what ends a bare word
does not. Two layouts of the same tokens are parsed alike exactly when they are
the same once the carriage returns right behind a word are counted as part of it.
-/

namespace RestfulWebserver.Config

open Library
open Library.Blocks

def BareWord (word : Bytes) : Prop :=
  word ≠ [] ∧ ∀ byte ∈ word,
    byte ∉ whitespace ∧ byte ∉ quotes ∧ byte ∉ ['#', ';', '\x7b', '\x7d']

instance (word : Bytes) : Decidable (BareWord word) := inferInstanceAs (Decidable (_ ∧ _))

/-- Tokens, each with the whitespace behind it. -/
abbrev Spaced := List (Symbol Bytes × Bytes)

namespace Spaced

def terminals (spaced : Spaced) : List (Symbol Bytes) := spaced.map Prod.fst

def text (spaced : Spaced) : Bytes := spaced.flatMap fun item => (mark item.1).value ++ item.2

/-- Bare words and marks with whitespace between them, the last one a mark. -/
structure Proper (spaced : Spaced) : Prop where
  blank : ∀ item ∈ spaced, ∀ byte ∈ item.2, byte ∈ whitespace
  bare : ∀ item ∈ spaced, ∀ word ∈ item.1.value, BareWord word
  ends : ∀ last ∈ spaced.getLast?, last.1.value = none

/-- A word at the front of what follows it, or joined with the word there. -/
def attach (front : Bytes) : List (Symbol Bytes) → List (Symbol Bytes)
  | .word next :: rest => .word (front ++ next) :: rest
  | rest => .word front :: rest

/-- The tokens when the carriage returns right behind a word are part of it, and
with them the next word where nothing else stands between the two. -/
def withReturns : Spaced → List (Symbol Bytes)
  | [] => []
  | (.word word, gap) :: rest =>
      if ∀ byte ∈ gap, byte = '\r' then attach (word ++ gap) (withReturns rest)
      else .word (word ++ gap.takeWhile (· = '\r')) :: withReturns rest
  | (.stop, _) :: rest => .stop :: withReturns rest
  | (.opening, _) :: rest => .opening :: withReturns rest
  | (.closing, _) :: rest => .closing :: withReturns rest

end Spaced

/-- A text made of tokens: whitespace, then the tokens with whitespace behind
each, and some of it between two words. -/
structure Layout where
  lead : Bytes
  spaced : Spaced
  leadBlank : ∀ byte ∈ lead, byte ∈ whitespace
  proper : spaced.Proper
  apart : spaced.IsChain fun item next =>
    item.1.value.isSome = true → next.1.value.isSome = true → item.2 ≠ []

def Layout.text (layout : Layout) : Bytes := layout.lead ++ layout.spaced.text

theorem tokens_blanks {blanks : Bytes} (blank : ∀ byte ∈ blanks, byte ∈ whitespace)
    (rest : Bytes) : tokens (blanks ++ rest) = tokens rest := by
  induction blanks with
  | nil => rfl
  | cons byte blanks ih =>
      obtain ⟨here, later⟩ := List.forall_mem_cons.mp blank
      rw [List.cons_append, tokens_blank here, ih later]

namespace Spaced

/-! ## What is read from a layout -/

/-- What the text of spaced tokens that start with a word is read as. -/
structure Front (spaced : Spaced) (word : Bytes) (stop : Char) (behind : Bytes)
    (more : List (Symbol Bytes)) : Prop where
  text : spaced.text = word ++ stop :: behind
  starts : ∃ first body, word = first :: body ∧ StartsWord first
  free : Free wordEnds word
  ended : stop ∈ wordEnds
  counted : spaced.withReturns = .word word :: more
  rest : tokens (stop :: behind) = more.map mark ++ [⟨.eof, []⟩]

theorem tokens_front {spaced : Spaced} {word behind : Bytes} {stop : Char}
    {more : List (Symbol Bytes)} (front : Front spaced word stop behind more) :
    tokens spaced.text = spaced.withReturns.map mark ++ [⟨.eof, []⟩] := by
  obtain ⟨first, body, same, starts⟩ := front.starts
  have free := front.free
  rw [same] at free
  have read := Reads.word starts ((free_cons _ _ _).mp free).2 front.ended behind
  rw [front.text, front.counted, same, List.cons_append,
    tokens_cons read (by simp [TokenType.isLast]), front.rest]
  rfl

theorem free_of_bare {word : Bytes} (bare : BareWord word) : Free wordEnds word := by
  intro byte member
  obtain ⟨solid, _, plain⟩ := bare.2 byte member
  simp only [whitespace, wordEnds, List.mem_cons, List.not_mem_nil, or_false, not_or] at *
  exact ⟨solid.1, solid.2.1, solid.2.2.1, plain.2.1, plain.2.2.1, plain.2.2.2⟩

theorem starts_of_bare {word : Bytes} (bare : BareWord word) (more : Bytes) :
    ∃ first body, word ++ more = first :: body ∧ StartsWord first := by
  obtain ⟨first, body, same⟩ := List.exists_cons_of_ne_nil bare.1
  obtain ⟨solid, noQuote, plain⟩ := bare.2 first (by simp [same])
  refine ⟨first, body ++ more, by rw [same]; rfl, solid, ?_⟩
  simp only [quotes, List.mem_cons, List.not_mem_nil, or_false, not_or] at *
  exact ⟨plain.2.2.1, plain.2.2.2, plain.1, noQuote.2, noQuote.1, plain.2.1⟩

theorem free_append {stops : List Char} {first second : Bytes} (free : Free stops first)
    (other : Free stops second) : Free stops (first ++ second) := by
  intro byte member
  rcases List.mem_append.mp member with inFirst | inSecond
  · exact free byte inFirst
  · exact other byte inSecond

theorem returns_free {returns : Bytes} (only : ∀ byte ∈ returns, byte = '\r') :
    Free wordEnds returns := by
  intro byte member
  rw [only byte member]
  decide

theorem Proper.tail {item : Symbol Bytes × Bytes} {rest : Spaced}
    (proper : Proper (item :: rest)) : Proper rest where
  blank := (List.forall_mem_cons.mp proper.blank).2
  bare := (List.forall_mem_cons.mp proper.bare).2
  ends := by
    intro last isLast
    apply proper.ends last
    cases rest with
    | nil => cases isLast
    | cons next rest => rwa [List.getLast?_cons_cons]

theorem text_cons (item : Symbol Bytes × Bytes) (rest : Spaced) :
    text (item :: rest) = (mark item.1).value ++ (item.2 ++ text rest) := by
  rw [text, List.flatMap_cons, List.append_assoc]
  rfl

theorem mark_ends {item : Symbol Bytes × Bytes} (isMark : item.1.value = none) (rest : Spaced) :
    ∃ stop behind, text (item :: rest) = stop :: behind ∧ stop ∈ wordEnds ∧
      ∀ front, attach front (withReturns (item :: rest)) =
        .word front :: withReturns (item :: rest) := by
  obtain ⟨symbol, gap⟩ := item
  rw [text_cons]
  cases symbol with
  | word value => cases isMark
  | stop => exact ⟨_, _, rfl, by decide, fun _ => rfl⟩
  | opening => exact ⟨_, _, rfl, by decide, fun _ => rfl⟩
  | closing => exact ⟨_, _, rfl, by decide, fun _ => rfl⟩

theorem front_apart {word gap : Bytes} {rest : Spaced} (bare : BareWord word)
    (blank : ∀ byte ∈ gap, byte ∈ whitespace) (other : ¬ ∀ byte ∈ gap, byte = '\r')
    (delivered : tokens rest.text = rest.withReturns.map mark ++ [⟨.eof, []⟩]) :
    ∃ full stop behind more, Front ((.word word, gap) :: rest) (word ++ full) stop behind more := by
  let returns := gap.takeWhile (· = '\r')
  have split : gap = returns ++ gap.dropWhile (· = '\r') := List.takeWhile_append_dropWhile.symm
  have only : ∀ byte ∈ returns, byte = '\r' := by
    intro byte member
    simpa using List.mem_takeWhile_imp member
  have more : gap.dropWhile (· = '\r') ≠ [] := by
    intro none
    rw [none, List.append_nil] at split
    exact other (split ▸ only)
  obtain ⟨stop, gapRest, dropped⟩ := List.exists_cons_of_ne_nil more
  have stopsHere : stop ≠ '\r' := by
    have rejected := @ends_run_drop_while (fun byte => decide (byte = '\r')) gap stop
      (by rw [dropped]; rfl)
    simpa using rejected
  rw [dropped] at split
  have inGap : ∀ byte ∈ stop :: gapRest, byte ∈ whitespace := by
    intro byte member
    exact blank byte (by rw [split]; exact List.mem_append_right _ member)
  have ended : stop ∈ wordEnds := by
    have isBlank := inGap stop List.mem_cons_self
    simp only [whitespace, wordEnds, List.mem_cons, List.not_mem_nil, or_false] at *
    tauto
  refine ⟨returns, stop, gapRest ++ text rest, withReturns rest, ?_, ?_, ?_, ended, ?_, ?_⟩
  · rw [text_cons]
    conv_lhs => rw [split]
    simp [mark]
  · exact starts_of_bare bare returns
  · exact free_append (free_of_bare bare) (returns_free only)
  · rw [withReturns, if_neg other]
  · rw [← List.cons_append, tokens_blanks inGap, delivered]

/-- A word at the front is read up to its gap, or carriage returns join it with
what is behind the gap. -/
theorem word_front {word gap : Bytes} {rest : Spaced} (proper : Proper ((.word word, gap) :: rest))
    (bare : BareWord word)
    (delivered : tokens rest.text = rest.withReturns.map mark ++ [⟨.eof, []⟩])
    (fronts : ∀ word gap later, rest = (.word word, gap) :: later →
      ∃ full stop behind more, Front rest (word ++ full) stop behind more) :
    ∃ full stop behind more,
      Front ((.word word, gap) :: rest) (word ++ full) stop behind more := by
  have blank := (List.forall_mem_cons.mp proper.blank).1
  by_cases only : ∀ byte ∈ gap, byte = '\r'
  · cases rest with
    | nil => exact absurd (proper.ends _ rfl) (by simp [Symbol.value])
    | cons next rest =>
        cases kind : next.1.value with
        | none =>
            obtain ⟨stop, behind, starts, ended, attached⟩ := mark_ends kind rest
            refine ⟨gap, stop, behind, withReturns (next :: rest), ?_, ?_, ?_, ended, ?_, ?_⟩
            · rw [text_cons, starts, List.append_assoc]
              rfl
            · exact starts_of_bare bare gap
            · exact free_append (free_of_bare bare) (returns_free only)
            · rw [withReturns, if_pos only, attached]
            · rw [← starts, delivered]
        | some nextWord =>
            have isWord : next = (.word nextWord, next.2) := by
              obtain ⟨symbol, gap⟩ := next
              cases symbol <;> cases kind
              rfl
            obtain ⟨full, stop, behind, more, front⟩ :=
              fronts nextWord next.2 rest (by rw [← isWord])
            refine ⟨gap ++ (nextWord ++ full), stop, behind, more, ?_, ?_, ?_, front.ended, ?_,
              front.rest⟩
            · rw [text_cons, front.text]
              simp [mark]
            · exact starts_of_bare bare _
            · exact free_append (free_of_bare bare) (free_append (returns_free only) front.free)
            · rw [withReturns, if_pos only, front.counted, attach, List.append_assoc]
  · exact front_apart bare blank only delivered

/-- The text delivers the tokens with the carriage returns in them. -/
theorem tokens_spaced {spaced : Spaced} (proper : Proper spaced) :
    tokens spaced.text = spaced.withReturns.map mark ++ [⟨.eof, []⟩] ∧
      ∀ word gap rest, spaced = (.word word, gap) :: rest →
        ∃ full stop behind more, Front spaced (word ++ full) stop behind more := by
  induction spaced with
  | nil => exact ⟨tokens_of_last .nothing (.inl rfl), by simp⟩
  | cons item rest ih =>
      obtain ⟨delivered, fronts⟩ := ih proper.tail
      obtain ⟨symbol, gap⟩ := item
      have blank := (List.forall_mem_cons.mp proper.blank).1
      have afterGap : tokens (gap ++ text rest) = (withReturns rest).map mark ++ [⟨.eof, []⟩] := by
        rw [tokens_blanks blank, delivered]
      cases symbol with
      | word word =>
          have bare := (List.forall_mem_cons.mp proper.bare).1 word rfl
          obtain ⟨full, stop, behind, more, isFront⟩ := word_front proper bare delivered fronts
          refine ⟨tokens_front isFront, fun other otherGap otherRest same => ?_⟩
          cases same
          exact ⟨full, stop, behind, more, isFront⟩
      | stop =>
          refine ⟨?_, by simp⟩
          rw [text_cons]
          exact (tokens_stop _).trans (congrArg (mark .stop :: ·) afterGap)
      | opening =>
          refine ⟨?_, by simp⟩
          rw [text_cons]
          exact (tokens_opening _).trans (congrArg (mark .opening :: ·) afterGap)
      | closing =>
          refine ⟨?_, by simp⟩
          rw [text_cons]
          exact (tokens_closing _).trans (congrArg (mark .closing :: ·) afterGap)

/-! ## Two layouts of the same tokens -/

/-- A word is joined with the next one behind carriage returns, or stands alone
with some of them. -/
theorem joined_or_alone {word gap : Bytes} {rest : Spaced}
    (proper : Proper ((.word word, gap) :: rest)) :
    (∃ first next more, withReturns rest = .word (first :: next) :: more ∧ first ≠ '\r' ∧
      (∀ byte ∈ gap, byte = '\r') ∧
      withReturns ((.word word, gap) :: rest) = .word (word ++ (gap ++ first :: next)) :: more) ∨
    ∃ returns, (∀ byte ∈ returns, byte = '\r') ∧
      withReturns ((.word word, gap) :: rest) = .word (word ++ returns) :: withReturns rest := by
  rw [withReturns]
  split_ifs with only
  · cases rest with
    | nil => exact absurd (proper.ends _ rfl) (by simp [Symbol.value])
    | cons next rest =>
        obtain ⟨symbol, nextGap⟩ := next
        cases symbol with
        | word nextWord =>
            obtain ⟨full, stop, behind, more, front⟩ :=
              (tokens_spaced proper.tail).2 nextWord nextGap rest rfl
            obtain ⟨first, body, same, starts⟩ := front.starts
            have counted := front.counted
            rw [same] at counted
            refine .inl ⟨first, body, more, counted, ?_, only, ?_⟩
            · intro isReturn
              exact starts.1 (by rw [isReturn]; decide)
            · rw [counted, attach, List.append_assoc]
        | stop => exact .inr ⟨gap, only, rfl⟩
        | opening => exact .inr ⟨gap, only, rfl⟩
        | closing => exact .inr ⟨gap, only, rfl⟩
  · refine .inr ⟨_, ?_, rfl⟩
    intro byte member
    simpa using List.mem_takeWhile_imp member

theorem returns_cancel {returns others next otherNext : Bytes} {first otherFirst : Char}
    (only : ∀ byte ∈ returns, byte = '\r') (otherOnly : ∀ byte ∈ others, byte = '\r')
    (solid : first ≠ '\r') (otherSolid : otherFirst ≠ '\r')
    (same : returns ++ first :: next = others ++ otherFirst :: otherNext) :
    first :: next = otherFirst :: otherNext ∧ returns = others := by
  have inside : ∀ run : Bytes, (∀ byte ∈ run, byte = '\r') →
      ∀ byte ∈ run, decide (byte = '\r') = true := fun run all byte member =>
    decide_eq_true (all byte member)
  have ends : ∀ (byte : Char) (rest : Bytes), byte ≠ '\r' →
      EndsRun (fun byte => decide (byte = '\r')) (byte :: rest) := fun byte rest other =>
    ends_run_cons (decide_eq_false other)
  have taken := take_while_run (inside returns only) (ends first next solid)
  have dropped := drop_while_run (inside returns only) (ends first next solid)
  rw [same, take_while_run (inside others otherOnly) (ends otherFirst otherNext otherSolid)] at taken
  rw [same, drop_while_run (inside others otherOnly) (ends otherFirst otherNext otherSolid)] at dropped
  exact ⟨dropped.symm, taken.symm⟩

theorem more_than_returns {run others next : Bytes} {first : Char} (solid : first ≠ '\r')
    (only : ∀ byte ∈ others, byte = '\r') : run ++ first :: next ≠ others := by
  intro joined
  exact solid (only first (by rw [← joined]; simp))

theorem heeded_of_words {one other : Spaced} (proper : Proper one) (otherProper : Proper other)
    (same : one.terminals = other.terminals) (depth : Nat) (worded : Bool)
    (words : wordsOf (heeded depth worded one.withReturns) =
      wordsOf (heeded depth worded other.withReturns)) :
    heeded depth worded one.withReturns = heeded depth worded other.withReturns := by
  induction one generalizing other depth worded with
  | nil =>
      cases other with
      | nil => rfl
      | cons item rest => cases same
  | cons item rest ih =>
      cases other with
      | nil => cases same
      | cons otherItem otherRest =>
          obtain ⟨symbol, gap⟩ := item
          obtain ⟨otherSymbol, otherGap⟩ := otherItem
          obtain ⟨sameSymbol, sameRest⟩ := List.cons.inj same
          change symbol = otherSymbol at sameSymbol
          subst sameSymbol
          have later := fun depth worded => ih proper.tail otherProper.tail sameRest depth worded
          cases symbol with
          | word word =>
              rcases joined_or_alone proper with
                ⟨first, next, more, nextRead, solid, only, read⟩ | ⟨returns, only, read⟩
              · rcases joined_or_alone otherProper with
                  ⟨otherFirst, otherNext, otherMore, otherNextRead, otherSolid, otherOnly,
                    otherRead⟩ | ⟨others, otherOnly, otherRead⟩
                · rw [read, otherRead] at words ⊢
                  obtain ⟨joined, behind⟩ := List.cons.inj words
                  obtain ⟨sameNext, sameGap⟩ := returns_cancel only otherOnly solid otherSolid
                    (List.append_cancel_left joined)
                  have inner := later depth worded
                  rw [nextRead, otherNextRead, sameNext] at inner
                  have tails := inner (congrArg (_ :: ·) behind)
                  simp only [heeded] at tails ⊢
                  rw [sameGap, sameNext, (List.cons.inj tails).2]
                · rw [read, otherRead] at words
                  exact absurd (List.append_cancel_left (List.cons.inj words).1)
                    (more_than_returns solid otherOnly)
              · rcases joined_or_alone otherProper with
                  ⟨otherFirst, otherNext, otherMore, otherNextRead, otherSolid, otherOnly,
                    otherRead⟩ | ⟨others, otherOnly, otherRead⟩
                · rw [read, otherRead] at words
                  exact absurd (List.append_cancel_left (List.cons.inj words).1).symm
                    (more_than_returns otherSolid only)
                · rw [read, otherRead] at words ⊢
                  obtain ⟨alone, behind⟩ := List.cons.inj words
                  rw [heeded, heeded, alone]
                  exact congrArg _ (later depth true behind)
          | stop =>
              simp only [withReturns, heeded] at words ⊢
              split_ifs at words ⊢
              · exact congrArg _ (later depth false words)
              · rfl
          | opening =>
              simp only [withReturns, heeded] at words ⊢
              split_ifs at words ⊢
              · exact congrArg _ (later (depth + 1) false words)
              · rfl
          | closing =>
              simp only [withReturns, heeded] at words ⊢
              split_ifs at words ⊢
              · rfl
              · exact congrArg _ (later (depth - 1) false words)

end Spaced

/-! ## What is parsed -/

/-- The parser goes on for as long as it heeds what it is given. -/
theorem run_heeds {parser : Parser} {place : Place Bytes} (follows : Follows parser place)
    (terminals : List (Symbol Bytes)) :
    ∃ final accepted, place.read (place.heeds terminals) = some final ∧
      parser.run (terminals.map mark ++ [⟨.eof, []⟩]) =
        (accepted, plug final.frames (final.entries ++ begun final.words)) ∧
      (accepted = true ↔
        place.heeds terminals = terminals ∧ final.words = [] ∧ final.frames = []) := by
  induction terminals generalizing parser place with
  | nil =>
      have whole : place.heeds [] = [] := rfl
      simp only [List.map_nil, List.nil_append, Parser.run, whole, true_and]
      rcases @step_eof _ _ ⟨.eof, []⟩ follows rfl with ⟨returned, both⟩ | ⟨returned, open_⟩
      · rw [returned]
        exact ⟨place, true, rfl, by rw [follows.config], iff_of_true rfl both⟩
      · rw [returned]
        exact ⟨place, false, rfl, by rw [follows.config], iff_of_false Bool.false_ne_true open_⟩
  | cons symbol rest ih =>
      have step := step_symbol follows (symbol_mark symbol)
      simp only [List.map_cons, List.cons_append, Parser.run, heeds_cons]
      cases advanced : place.advance symbol with
      | none =>
          simp only [advanced] at step
          exact ⟨place, false, rfl, by simp [step, follows.config], by simp⟩
      | some after =>
          simp only [advanced] at step
          obtain ⟨next, stepped, followsNext⟩ := step
          obtain ⟨final, accepted, read, ran, accepts⟩ := ih followsNext
          refine ⟨final, accepted, ?_, ?_, ?_⟩
          · rw [Option.elim_some, Place.read, advanced]
            exact read
          · simp [stepped, ran]
          · simp [accepts]

/-- The words in the tree are the words that were heeded. -/
theorem words_of_built {terminals : List (Symbol Bytes)} {final : Place Bytes}
    (read : Place.start.read terminals = some final) :
    wordsOf (spell (plug final.frames (final.entries ++ begun final.words))) =
      wordsOf terminals := by
  have headedStart : (Place.start : Place Bytes).Headed := by
    simp [Place.start, Place.Headed, Headed, Every]
  have spelling := (read_spelling read headedStart).1
  have words := congrArg wordsOf spelling
  have begunWords : wordsOf (spell (begun final.words)) = final.words := by
    unfold begun
    split_ifs with none
    · rw [none, spell]
      rfl
    · simp only [spell, words_of_append, words_of_words]
      exact List.append_nil _
  have nothing : Place.start.spelling ++ terminals = terminals := by
    simp [Place.spelling, Place.start, spellFrames, spell]
  rw [nothing, Place.spelling, words_of_append, words_of_append, words_of_words] at words
  rw [words_of_plug, spell_append, words_of_append, begunWords, words]

theorem all_heeded {depth : Nat} {worded : Bool} {symbols others : List (Symbol Bytes)}
    (marks : symbols.filter (·.value.isNone) = others.filter (·.value.isNone))
    (same : heeded depth worded symbols = heeded depth worded others)
    (whole : heeded depth worded symbols = symbols) : heeded depth worded others = others := by
  obtain ⟨rest, split, ends⟩ := heeded_split depth worded others
  rw [← same, whole] at split
  rcases ends with none | ⟨first, more, starts, isMark⟩
  · rw [← same, whole, split, none, List.append_nil]
  · rw [split, List.filter_append, starts, List.filter_cons_of_pos (by simp [isMark])] at marks
    simpa using congrArg List.length marks

namespace Spaced

theorem marks_kept (spaced : Spaced) :
    spaced.withReturns.filter (·.value.isNone) = spaced.terminals.filter (·.value.isNone) := by
  induction spaced with
  | nil => rfl
  | cons item rest ih =>
      obtain ⟨symbol, gap⟩ := item
      have attached : ∀ front, (attach front (withReturns rest)).filter (·.value.isNone) =
          (withReturns rest).filter (·.value.isNone) := by
        intro front
        cases withReturns rest with
        | nil => rfl
        | cons next more => cases next <;> rfl
      change (withReturns rest).filter _ = (terminals rest).filter _ at ih
      cases symbol with
      | word word =>
          rw [withReturns]
          split_ifs
          · exact (attached _).trans ih
          · exact ih
      | stop => exact congrArg (Symbol.stop :: ·) ih
      | opening => exact congrArg (Symbol.opening :: ·) ih
      | closing => exact congrArg (Symbol.closing :: ·) ih

end Spaced

/-- The words of a layout up to the first mark that the parser refuses, with the
carriage returns right behind them. -/
def Layout.heededWords (layout : Layout) : List Bytes :=
  wordsOf (heeded 0 false layout.spaced.withReturns)

theorem parse_layout (layout : Layout) :
    ∃ final accepted,
      Place.start.read (heeded 0 false layout.spaced.withReturns) = some final ∧
      parse layout.text [] = (accepted, plug final.frames (final.entries ++ begun final.words)) ∧
      (accepted = true ↔ heeded 0 false layout.spaced.withReturns = layout.spaced.withReturns ∧
        final.words = [] ∧ final.frames = []) := by
  have delivered := (Spaced.tokens_spaced layout.proper).1
  rw [parse, Layout.text, tokens_blanks layout.leadBlank, delivered]
  exact run_heeds follows_start layout.spaced.withReturns

/-- Two layouts of the same tokens give the same result and the same tree exactly
when their words are the same with the carriage returns right behind them. -/
theorem layouts_agree_iff (one other : Layout)
    (same : one.spaced.terminals = other.spaced.terminals) :
    parse one.text [] = parse other.text [] ↔ one.heededWords = other.heededWords := by
  obtain ⟨final, accepted, read, parsed, accepts⟩ := parse_layout one
  obtain ⟨otherFinal, otherAccepted, otherRead, otherParsed, otherAccepts⟩ := parse_layout other
  rw [parsed, otherParsed]
  constructor
  · intro results
    rw [Layout.heededWords, Layout.heededWords, ← words_of_built read, ← words_of_built otherRead,
      (Prod.mk.inj results).2]
  · intro words
    have heeds := Spaced.heeded_of_words one.proper other.proper same 0 false words
    rw [heeds, otherRead] at read
    cases read
    have marks : one.spaced.withReturns.filter (·.value.isNone) =
        other.spaced.withReturns.filter (·.value.isNone) := by
      rw [Spaced.marks_kept, Spaced.marks_kept, same]
    have whole : heeded 0 false one.spaced.withReturns = one.spaced.withReturns ↔
        heeded 0 false other.spaced.withReturns = other.spaced.withReturns :=
      ⟨all_heeded marks heeds, all_heeded marks.symm heeds.symm⟩
    rw [whole, ← otherAccepts] at accepts
    rw [Bool.eq_iff_iff.mpr accepts]

def echoLayout (lineEnd : Bytes) (blank : ∀ byte ∈ lineEnd, byte ∈ whitespace) : Layout where
  lead := []
  spaced := [(.word "port".toList, [' ']), (.word "80".toList, []), (.stop, lineEnd),
    (.word "location".toList, [' ']), (.word "/".toList, [' ']),
    (.word "EchoHandler".toList, lineEnd), (.opening, lineEnd), (.closing, lineEnd)]
  leadBlank := List.forall_mem_nil _
  proper := by
    constructor
    · have space : ∀ byte ∈ [' '], byte ∈ whitespace := by decide
      simpa only [List.forall_mem_cons, List.not_mem_nil, false_implies, implies_true, and_true,
        true_and] using ⟨space ' ' (by decide), blank, space ' ' (by decide),
          space ' ' (by decide), blank, blank, blank⟩
    · simp only [List.forall_mem_cons, List.not_mem_nil, false_implies, implies_true, and_true]
      decide
    · simp [Symbol.value]
  apart := by simp [Symbol.value]

theorem layouts_agree_blank :
    parse (echoLayout ['\n'] (by decide)).text [] =
      parse (echoLayout ['\t', '\n'] (by decide)).text [] :=
  (layouts_agree_iff (echoLayout ['\n'] (by decide)) (echoLayout ['\t', '\n'] (by decide)) rfl).mpr
    (by decide +kernel)

/-- With a carriage return in every line end the name of the handler ends in one. -/
theorem line_ends_matter :
    ¬ ∀ one other : Layout, one.spaced.terminals = other.spaced.terminals →
      parse one.text [] = parse other.text [] := by
  intro always
  have same := always (echoLayout ['\n'] (by decide)) (echoLayout ['\r', '\n'] (by decide)) rfl
  have delivered : tokens (echoLayout ['\n'] (by decide)).text =
      [⟨.normal, "port".toList⟩, ⟨.normal, "80".toList⟩, ⟨.statementEnd, [';']⟩,
        ⟨.normal, "location".toList⟩, ⟨.normal, "/".toList⟩, ⟨.normal, "EchoHandler".toList⟩,
        ⟨.startBlock, ['\x7b']⟩, ⟨.endBlock, ['\x7d']⟩, ⟨.eof, []⟩] := by
    decide +kernel
  have otherDelivered : tokens (echoLayout ['\r', '\n'] (by decide)).text =
      [⟨.normal, "port".toList⟩, ⟨.normal, "80".toList⟩, ⟨.statementEnd, [';']⟩,
        ⟨.normal, "location".toList⟩, ⟨.normal, "/".toList⟩, ⟨.normal, "EchoHandler\r".toList⟩,
        ⟨.startBlock, ['\x7b']⟩, ⟨.endBlock, ['\x7d']⟩, ⟨.eof, []⟩] := by
    decide +kernel
  rw [parse, parse, delivered, otherDelivered] at same
  have words := congrArg (fun parsed => parsed.2.map NginxConfigStatement.tokens) same
  exact absurd words (by decide +kernel)

end RestfulWebserver.Config
