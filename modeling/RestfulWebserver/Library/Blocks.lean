import Mathlib.Data.List.Basic

/-!
# Blocks of entries, nested in each other

An entry is a row of words that either stops or opens a block of further
entries. The grammar below says which symbol sequences spell a list of entries;
a machine that keeps the blocks still open on a stack reads one symbol at a
time and decides it.
-/

namespace RestfulWebserver.Library.Blocks

inductive Entry (Word : Type*) where
  | plain (words : List Word)
  | block (words : List Word) (inner : List (Entry Word))

inductive Symbol (Word : Type*) where
  | word (value : Word)
  | stop
  | opening
  | closing

variable {Word : Type*}

/-- `entries → ε | word+ stop entries | word+ opening entries closing entries`,
with the list of entries each derivation builds. -/
inductive Derives : List (Symbol Word) → List (Entry Word) → Prop where
  | empty : Derives [] []
  | plain {words : List Word} {rest : List (Symbol Word)} {entries : List (Entry Word)}
      (headed : words ≠ []) (after : Derives rest entries) :
      Derives (words.map Symbol.word ++ Symbol.stop :: rest) (Entry.plain words :: entries)
  | block {words : List Word} {symbols rest : List (Symbol Word)}
      {inner entries : List (Entry Word)} (headed : words ≠ []) (within : Derives symbols inner)
      (after : Derives rest entries) :
      Derives (words.map Symbol.word ++ Symbol.opening :: (symbols ++ Symbol.closing :: rest))
        (Entry.block words inner :: entries)

def spell : List (Entry Word) → List (Symbol Word)
  | [] => []
  | .plain words :: rest => words.map Symbol.word ++ Symbol.stop :: spell rest
  | .block words inner :: rest =>
      words.map Symbol.word ++ Symbol.opening :: (spell inner ++ Symbol.closing :: spell rest)

def Every (property : List Word → Prop) : List (Entry Word) → Prop
  | [] => True
  | .plain words :: rest => property words ∧ Every property rest
  | .block words inner :: rest => property words ∧ Every property inner ∧ Every property rest

def Headed (entries : List (Entry Word)) : Prop := Every (· ≠ []) entries

theorem spell_append (entries more : List (Entry Word)) :
    spell (entries ++ more) = spell entries ++ spell more := by
  induction entries with
  | nil => simp [spell]
  | cons entry rest ih =>
      cases entry with
      | plain words => simp [spell, ih]
      | block words inner => simp [spell, ih]

theorem spell_ends : (entries : List (Entry Word)) → entries ≠ [] →
    ∃ before last, spell entries = before ++ [last] ∧ (last = .stop ∨ last = .closing)
  | [], present => absurd rfl present
  | [.plain words], _ => ⟨words.map Symbol.word, .stop, by simp [spell], .inl rfl⟩
  | [.block words inner], _ =>
      ⟨words.map Symbol.word ++ Symbol.opening :: spell inner, .closing, by simp [spell], .inr rfl⟩
  | entry :: next :: rest, _ => by
      obtain ⟨before, last, spelled, marked⟩ := spell_ends (next :: rest) (List.cons_ne_nil _ _)
      refine ⟨spell [entry] ++ before, last, ?_, marked⟩
      rw [List.append_assoc, ← spelled, ← spell_append, List.singleton_append]

theorem every_append (property : List Word → Prop) (entries more : List (Entry Word)) :
    Every property (entries ++ more) ↔ Every property entries ∧ Every property more := by
  induction entries with
  | nil => simp [Every]
  | cons entry rest ih =>
      cases entry with
      | plain words => simp [Every, ih, and_assoc]
      | block words inner => simp [Every, ih, and_assoc]

theorem Every.mono {property weaker : List Word → Prop}
    (follows : ∀ words, property words → weaker words) :
    (entries : List (Entry Word)) → Every property entries → Every weaker entries
  | [], _ => by simp [Every]
  | .plain words :: rest, every => by
      rw [Every] at every ⊢
      exact ⟨follows words every.1, Every.mono follows rest every.2⟩
  | .block words inner :: rest, every => by
      rw [Every] at every ⊢
      exact ⟨follows words every.1, Every.mono follows inner every.2.1,
        Every.mono follows rest every.2.2⟩

theorem derives_spell : (entries : List (Entry Word)) → Headed entries →
    Derives (spell entries) entries
  | [], _ => by
      rw [spell]
      exact .empty
  | .plain words :: rest, headed => by
      rw [Headed, Every] at headed
      rw [spell]
      exact .plain headed.1 (derives_spell rest headed.2)
  | .block words inner :: rest, headed => by
      rw [Headed, Every] at headed
      rw [spell]
      exact .block headed.1 (derives_spell inner headed.2.1) (derives_spell rest headed.2.2)

theorem derives_iff (symbols : List (Symbol Word)) (entries : List (Entry Word)) :
    Derives symbols entries ↔ symbols = spell entries ∧ Headed entries := by
  constructor
  · intro derivation
    induction derivation with
    | empty => simp [spell, Headed, Every]
    | plain headed after ih =>
        refine ⟨?_, ?_⟩
        · rw [spell, ih.1]
        · rw [Headed, Every]
          exact ⟨headed, ih.2⟩
    | block headed inside after ihInner ihRest =>
        refine ⟨?_, ?_⟩
        · rw [spell, ihInner.1, ihRest.1]
        · rw [Headed, Every]
          exact ⟨headed, ihInner.2, ihRest.2⟩
  · rintro ⟨rfl, headed⟩
    exact derives_spell entries headed

theorem every_of_spelled {property : Word → Prop} : (entries : List (Entry Word)) →
    Headed entries → (∀ value, Symbol.word value ∈ spell entries → property value) →
    Every (fun words => words ≠ [] ∧ ∀ value ∈ words, property value) entries
  | [], _, _ => by simp [Every]
  | .plain words :: rest, headed, spelled => by
      rw [Headed, Every] at headed
      rw [Every]
      simp only [spell, List.mem_append, List.mem_map, List.mem_cons] at spelled
      refine ⟨⟨headed.1, fun value member => spelled value (.inl ⟨value, member, rfl⟩)⟩, ?_⟩
      exact every_of_spelled rest headed.2 fun value member =>
        spelled value (.inr (.inr member))
  | .block words inner :: rest, headed, spelled => by
      rw [Headed, Every] at headed
      rw [Every]
      simp only [spell, List.mem_append, List.mem_map, List.mem_cons] at spelled
      refine ⟨⟨headed.1, fun value member => spelled value (.inl ⟨value, member, rfl⟩)⟩, ?_, ?_⟩
      · exact every_of_spelled inner headed.2.1 fun value member =>
          spelled value (.inr (.inr (.inl member)))
      · exact every_of_spelled rest headed.2.2 fun value member =>
          spelled value (.inr (.inr (.inr (.inr member))))

/-! ## Reading with a stack -/

structure Frame (Word : Type*) where
  before : List (Entry Word)
  words : List Word

/-- How far a reader is: the blocks around it, the innermost first, the entries
read in the innermost one and the words of the entry that has not ended. -/
structure Place (Word : Type*) where
  frames : List (Frame Word)
  entries : List (Entry Word)
  words : List Word

def Place.start : Place Word := ⟨[], [], []⟩

def Place.advance (place : Place Word) : Symbol Word → Option (Place Word)
  | .word value => some { place with words := place.words ++ [value] }
  | .stop =>
      if place.words = [] then none
      else some ⟨place.frames, place.entries ++ [.plain place.words], []⟩
  | .opening =>
      if place.words = [] then none
      else some ⟨⟨place.entries, place.words⟩ :: place.frames, [], []⟩
  | .closing =>
      if place.words = [] then
        match place.frames with
        | [] => none
        | frame :: frames => some ⟨frames, frame.before ++ [.block frame.words place.entries], []⟩
      else none

def Place.read (place : Place Word) : List (Symbol Word) → Option (Place Word)
  | [] => some place
  | symbol :: rest => (place.advance symbol).bind fun next => next.read rest

theorem read_append (place : Place Word) (symbols more : List (Symbol Word)) :
    place.read (symbols ++ more) = (place.read symbols).bind fun next => next.read more := by
  induction symbols generalizing place with
  | nil => rfl
  | cons symbol rest ih =>
      simp only [List.cons_append, Place.read]
      cases place.advance symbol with
      | none => rfl
      | some next => exact ih next

theorem read_words (place : Place Word) (words : List Word) :
    place.read (words.map Symbol.word) = some { place with words := place.words ++ words } := by
  induction words generalizing place with
  | nil => simp [Place.read]
  | cons value rest ih => simp [Place.read, Place.advance, ih]

/-- A derivation read from any place adds its entries there. -/
theorem read_of_derives {symbols : List (Symbol Word)} {entries : List (Entry Word)}
    (derivation : Derives symbols entries) (frames : List (Frame Word))
    (before : List (Entry Word)) :
    Place.read ⟨frames, before, []⟩ symbols = some ⟨frames, before ++ entries, []⟩ := by
  induction derivation generalizing frames before with
  | empty => simp [Place.read]
  | plain headed after ih =>
      rw [read_append, read_words]
      simp only [List.nil_append, Option.bind_some, Place.read, Place.advance, if_neg headed]
      rw [ih, List.append_assoc]
      rfl
  | block headed inside after ihInner ihRest =>
      rw [read_append, read_words]
      simp only [List.nil_append, Option.bind_some, Place.read, Place.advance, if_neg headed]
      rw [read_append, ihInner]
      simp only [Option.bind_some, List.nil_append, Place.read, Place.advance, if_true]
      rw [ihRest, List.append_assoc]
      rfl

def spellFrames : List (Frame Word) → List (Symbol Word)
  | [] => []
  | frame :: frames =>
      spellFrames frames ++
        (spell frame.before ++ (frame.words.map Symbol.word ++ [Symbol.opening]))

/-- The symbols that lead to a place. -/
def Place.spelling (place : Place Word) : List (Symbol Word) :=
  spellFrames place.frames ++ (spell place.entries ++ place.words.map Symbol.word)

def Place.Headed (place : Place Word) : Prop :=
  (∀ frame ∈ place.frames, Blocks.Headed frame.before ∧ frame.words ≠ []) ∧
    Blocks.Headed place.entries

theorem advance_spelling {place next : Place Word} {symbol : Symbol Word}
    (advanced : place.advance symbol = some next) :
    next.spelling = place.spelling ++ [symbol] := by
  cases symbol with
  | word value =>
      cases advanced
      simp [Place.spelling]
  | stop =>
      simp only [Place.advance, Option.ite_none_left_eq_some, Option.some.injEq] at advanced
      obtain ⟨_, rfl⟩ := advanced
      simp [Place.spelling, spell_append, spell]
  | opening =>
      simp only [Place.advance, Option.ite_none_left_eq_some, Option.some.injEq] at advanced
      obtain ⟨_, rfl⟩ := advanced
      simp [Place.spelling, spellFrames, spell]
  | closing =>
      obtain ⟨frames, entries, words⟩ := place
      simp only [Place.advance, Option.ite_none_right_eq_some] at advanced
      obtain ⟨rfl, advanced⟩ := advanced
      cases frames with
      | nil => cases advanced
      | cons frame frames =>
          cases advanced
          simp [Place.spelling, spellFrames, spell_append, spell]

theorem advance_headed {place next : Place Word} {symbol : Symbol Word}
    (advanced : place.advance symbol = some next) (headed : place.Headed) : next.Headed := by
  cases symbol with
  | word value =>
      cases advanced
      exact headed
  | stop =>
      simp only [Place.advance, Option.ite_none_left_eq_some, Option.some.injEq] at advanced
      obtain ⟨worded, rfl⟩ := advanced
      refine ⟨headed.1, (every_append _ _ _).mpr ⟨headed.2, ?_⟩⟩
      simpa [Every] using worded
  | opening =>
      simp only [Place.advance, Option.ite_none_left_eq_some, Option.some.injEq] at advanced
      obtain ⟨worded, rfl⟩ := advanced
      refine ⟨List.forall_mem_cons.mpr ⟨⟨headed.2, worded⟩, headed.1⟩, ?_⟩
      simp [Blocks.Headed, Every]
  | closing =>
      obtain ⟨frames, entries, words⟩ := place
      simp only [Place.advance, Option.ite_none_right_eq_some] at advanced
      obtain ⟨rfl, advanced⟩ := advanced
      cases frames with
      | nil => cases advanced
      | cons frame frames =>
          cases advanced
          obtain ⟨⟨headedBefore, worded⟩, headedFrames⟩ := List.forall_mem_cons.mp headed.1
          refine ⟨headedFrames, (every_append _ _ _).mpr ⟨headedBefore, ?_⟩⟩
          simpa [Every] using ⟨worded, headed.2⟩

theorem read_spelling {place final : Place Word} {symbols : List (Symbol Word)}
    (read : place.read symbols = some final) (headed : place.Headed) :
    final.spelling = place.spelling ++ symbols ∧ final.Headed := by
  induction symbols generalizing place with
  | nil =>
      cases read
      exact ⟨(List.append_nil _).symm, headed⟩
  | cons symbol rest ih =>
      obtain ⟨next, advanced, readRest⟩ := Option.bind_eq_some_iff.mp read
      obtain ⟨spelling, headedFinal⟩ := ih readRest (advance_headed advanced headed)
      refine ⟨?_, headedFinal⟩
      rw [spelling, advance_spelling advanced, List.append_assoc, List.singleton_append]

/-- The machine ends outside every block and every entry exactly on the words of
the grammar, and has then built the derivation. -/
theorem read_start_iff (symbols : List (Symbol Word)) (entries : List (Entry Word)) :
    Place.start.read symbols = some ⟨[], entries, []⟩ ↔ Derives symbols entries := by
  constructor
  · intro read
    have headedStart : (Place.start : Place Word).Headed := by
      simp [Place.start, Place.Headed, Headed, Every]
    obtain ⟨spelling, headed⟩ := read_spelling read headedStart
    rw [derives_iff]
    refine ⟨?_, headed.2⟩
    simpa [Place.spelling, Place.start, spellFrames, spell] using spelling.symm
  · intro derivation
    exact read_of_derives derivation [] []

theorem derives_unique {symbols : List (Symbol Word)} {entries others : List (Entry Word)}
    (one : Derives symbols entries) (other : Derives symbols others) : entries = others := by
  have same := ((read_start_iff symbols entries).mpr one).symm.trans
    ((read_start_iff symbols others).mpr other)
  cases same
  rfl

/-! ## The tree under construction, and pointers into it -/

def plug : List (Frame Word) → List (Entry Word) → List (Entry Word)
  | [], entries => entries
  | frame :: frames, entries => plug frames (frame.before ++ [.block frame.words entries])

abbrev Address := List Nat

def address (frames : List (Frame Word)) : Address :=
  (frames.map fun frame => frame.before.length).reverse

def Entry.within (change : List (Entry Word) → List (Entry Word)) : Entry Word → Entry Word
  | .plain words => .plain words
  | .block words inner => .block words (change inner)

def Entry.inner : Entry Word → List (Entry Word)
  | .plain _ => []
  | .block _ inner => inner

def modifyAt : Address → (List (Entry Word) → List (Entry Word)) → List (Entry Word) →
    List (Entry Word)
  | [], change, entries => change entries
  | index :: rest, change, entries =>
      entries.modify index (Entry.within (modifyAt rest change))

def entriesAt : Address → List (Entry Word) → List (Entry Word)
  | [], entries => entries
  | index :: rest, entries => ((entries[index]?).map fun entry => entriesAt rest entry.inner).getD []

theorem modify_end (before : List (Entry Word)) (entry : Entry Word)
    (change : Entry Word → Entry Word) :
    (before ++ [entry]).modify before.length change = before ++ [change entry] := by
  induction before with
  | nil => rfl
  | cons first rest ih => simp [ih]

theorem modify_at_plug_below (frames : List (Frame Word)) (below : Address)
    (change : List (Entry Word) → List (Entry Word)) (entries : List (Entry Word)) :
    modifyAt (address frames ++ below) change (plug frames entries) =
      plug frames (modifyAt below change entries) := by
  induction frames generalizing below entries with
  | nil => rfl
  | cons frame frames ih =>
      simp only [address, List.map_cons, List.reverse_cons, List.append_assoc,
        List.singleton_append, plug] at ih ⊢
      rw [ih, modifyAt, modify_end, Entry.within]

theorem modify_at_plug (frames : List (Frame Word))
    (change : List (Entry Word) → List (Entry Word)) (entries : List (Entry Word)) :
    modifyAt (address frames) change (plug frames entries) = plug frames (change entries) := by
  simpa [modifyAt] using modify_at_plug_below frames [] change entries

theorem entries_at_plug_below (frames : List (Frame Word)) (below : Address)
    (entries : List (Entry Word)) :
    entriesAt (address frames ++ below) (plug frames entries) = entriesAt below entries := by
  induction frames generalizing below entries with
  | nil => rfl
  | cons frame frames ih =>
      simp only [address, List.map_cons, List.reverse_cons, List.append_assoc,
        List.singleton_append, plug] at ih ⊢
      rw [ih, entriesAt]
      simp [Entry.inner]

theorem entries_at_plug (frames : List (Frame Word)) (entries : List (Entry Word)) :
    entriesAt (address frames) (plug frames entries) = entries := by
  simpa [entriesAt] using entries_at_plug_below frames [] entries

/-! ## How much of a sequence is read -/

def Symbol.value : Symbol Word → Option Word
  | .word value => some value
  | .stop => none
  | .opening => none
  | .closing => none

def wordsOf (symbols : List (Symbol Word)) : List Word := symbols.filterMap Symbol.value

/-- The symbols before the first mark that cannot stand where it does. Given are
the number of open blocks and whether the last entry read has words only. -/
def heeded : Nat → Bool → List (Symbol Word) → List (Symbol Word)
  | _, _, [] => []
  | depth, _, .word value :: rest => .word value :: heeded depth true rest
  | depth, worded, .stop :: rest => if worded then .stop :: heeded depth false rest else []
  | depth, worded, .opening :: rest =>
      if worded then .opening :: heeded (depth + 1) false rest else []
  | depth, worded, .closing :: rest =>
      if worded ∨ depth = 0 then [] else .closing :: heeded (depth - 1) false rest

theorem heeded_split (depth : Nat) (worded : Bool) (symbols : List (Symbol Word)) :
    ∃ rest, symbols = heeded depth worded symbols ++ rest ∧
      (rest = [] ∨ ∃ first more, rest = first :: more ∧ first.value = none) := by
  induction symbols generalizing depth worded with
  | nil => exact ⟨[], rfl, .inl rfl⟩
  | cons symbol symbols ih =>
      have refused : symbol.value = none →
          ∃ rest, symbol :: symbols = [] ++ rest ∧
            (rest = [] ∨ ∃ first more, rest = first :: more ∧ first.value = none) :=
        fun noWord => ⟨symbol :: symbols, rfl, .inr ⟨symbol, symbols, rfl, noWord⟩⟩
      have goesOn : ∀ depth worded, ∃ rest, symbol :: symbols =
          symbol :: heeded depth worded symbols ++ rest ∧
            (rest = [] ∨ ∃ first more, rest = first :: more ∧ first.value = none) := by
        intro depth worded
        obtain ⟨rest, split, ends⟩ := ih depth worded
        exact ⟨rest, congrArg (symbol :: ·) split, ends⟩
      cases symbol with
      | word value => exact goesOn depth true
      | stop =>
          rw [heeded]
          split_ifs
          · exact goesOn depth false
          · exact refused rfl
      | opening =>
          rw [heeded]
          split_ifs
          · exact goesOn (depth + 1) false
          · exact refused rfl
      | closing =>
          rw [heeded]
          split_ifs
          · exact refused rfl
          · exact goesOn (depth - 1) false

def Place.heeds (place : Place Word) (symbols : List (Symbol Word)) : List (Symbol Word) :=
  heeded place.frames.length (!place.words.isEmpty) symbols

theorem heeds_cons (place : Place Word) (symbol : Symbol Word) (rest : List (Symbol Word)) :
    place.heeds (symbol :: rest) =
      (place.advance symbol).elim [] fun next => symbol :: next.heeds rest := by
  obtain ⟨frames, entries, words⟩ := place
  cases symbol with
  | word value => cases words <;> simp [Place.heeds, heeded, Place.advance]
  | stop => cases words <;> simp [Place.heeds, heeded, Place.advance]
  | opening => cases words <;> simp [Place.heeds, heeded, Place.advance]
  | closing =>
      cases words with
      | nil => cases frames <;> simp [Place.heeds, heeded, Place.advance]
      | cons word words => simp [Place.heeds, heeded, Place.advance]

theorem words_of_append (symbols more : List (Symbol Word)) :
    wordsOf (symbols ++ more) = wordsOf symbols ++ wordsOf more := List.filterMap_append

theorem words_of_mark {symbol : Symbol Word} (noWord : symbol.value = none)
    (rest : List (Symbol Word)) : wordsOf (symbol :: rest) = wordsOf rest :=
  List.filterMap_cons_none noWord

theorem words_of_words (words : List Word) : wordsOf (words.map Symbol.word) = words := by
  induction words with
  | nil => rfl
  | cons value words ih => exact congrArg (value :: ·) ih

theorem words_of_plug (frames : List (Frame Word)) (entries : List (Entry Word)) :
    wordsOf (spell (plug frames entries)) =
      wordsOf (spellFrames frames) ++ wordsOf (spell entries) := by
  induction frames generalizing entries with
  | nil => rfl
  | cons frame frames ih =>
      have opened : ∀ rest, wordsOf (Symbol.opening :: rest) = (wordsOf rest : List Word) :=
        words_of_mark rfl
      have closed : wordsOf [Symbol.closing] = ([] : List Word) := rfl
      rw [plug, ih, spellFrames]
      simp only [spell_append, spell, words_of_append, words_of_words, opened, closed,
        List.append_assoc, List.append_nil]
      rfl

end RestfulWebserver.Library.Blocks
