import Mathlib.Algebra.Group.Int.Defs
import Mathlib.Algebra.Group.Nat.Defs
import RestfulWebserver.Library.Text

/-!
# Integers read from the front of a text

`std::stoul` and `std::stoi` accept a prefix: blanks, one sign, then digits up
to the first other byte. Whatever follows the digits is ignored. They throw
`std::invalid_argument` without a digit and `std::out_of_range` past the type.
-/

namespace RestfulWebserver.Library

inductive NumberError where
  | invalidArgument
  | outOfRange
  deriving DecidableEq, Repr

/-- The largest `unsigned long`, on a platform where it has 64 bits. -/
def ulongMax : Nat := 2 ^ 64 - 1

def intMin : Int := -2 ^ 31
def intMax : Int := 2 ^ 31 - 1

def decimal (digits : Bytes) : Nat :=
  digits.foldl (fun value digit => 10 * value + (digit.toNat - '0'.toNat)) 0

/-- One optional sign: whether it was a minus, and the text after it. -/
def readSign : Bytes → Bool × Bytes
  | '-' :: rest => (true, rest)
  | '+' :: rest => (false, rest)
  | text => (false, text)

def readNumeral (text : Bytes) : Option (Bool × Nat) :=
  let signed := readSign (text.dropWhile isSpace)
  let digits := signed.2.takeWhile Char.isDigit
  if digits = [] then none else some (signed.1, decimal digits)

/-- `std::stoul(text)`: a negated value wraps around as `strtoul` has it. -/
def stoul (text : Bytes) : Except NumberError Nat :=
  match readNumeral text with
  | none => .error .invalidArgument
  | some (negative, magnitude) =>
      if ulongMax < magnitude then .error .outOfRange
      else .ok (if negative then (2 ^ 64 - magnitude) % 2 ^ 64 else magnitude)

/-- `std::stoi(text)`. -/
def stoi (text : Bytes) : Except NumberError Int :=
  match readNumeral text with
  | none => .error .invalidArgument
  | some (negative, magnitude) =>
      let value : Int := if negative then -magnitude else magnitude
      if value < intMin ∨ intMax < value then .error .outOfRange else .ok value

/-- The texts that start with an unsigned 64-bit decimal numeral, as a grammar:
blanks, an optional sign, a run of digits that ends, anything after it. -/
def StartsWithNumeral (text : Bytes) : Prop :=
  ∃ blanks sign digits rest : Bytes, text = blanks ++ (sign ++ (digits ++ rest)) ∧
    (∀ byte ∈ blanks, isSpace byte = true) ∧ (sign = [] ∨ sign = ['+'] ∨ sign = ['-']) ∧
    digits ≠ [] ∧ (∀ byte ∈ digits, byte.isDigit = true) ∧ EndsRun Char.isDigit rest ∧
    decimal digits ≤ ulongMax

def StartsWithInt (text : Bytes) : Prop :=
  ∃ blanks sign digits rest : Bytes, text = blanks ++ (sign ++ (digits ++ rest)) ∧
    (∀ byte ∈ blanks, isSpace byte = true) ∧ (sign = [] ∨ sign = ['+'] ∨ sign = ['-']) ∧
    digits ≠ [] ∧ (∀ byte ∈ digits, byte.isDigit = true) ∧ EndsRun Char.isDigit rest ∧
    decimal digits ≤ if sign = ['-'] then 2 ^ 31 else 2 ^ 31 - 1

structure PositiveNumeral (text : Bytes) : Prop where
  digits : ∀ byte ∈ text, byte.isDigit = true
  positive : 0 < decimal text
  bounded : (decimal text : Int) ≤ intMax

/-- The texts that start with such a numeral, with blanks and a plus before it. -/
def StartsPositive (text : Bytes) : Prop :=
  ∃ blanks sign digits rest : Bytes, text = blanks ++ (sign ++ (digits ++ rest)) ∧
    (∀ byte ∈ blanks, isSpace byte = true) ∧ (sign = [] ∨ sign = ['+']) ∧
    EndsRun Char.isDigit rest ∧ PositiveNumeral digits

theorem PositiveNumeral.nonempty {text : Bytes} (numeral : PositiveNumeral text) : text ≠ [] := by
  rintro rfl
  exact absurd numeral.positive (by decide)

theorem digit_not_space {byte : Char} (digit : byte.isDigit = true) : isSpace byte = false := by
  cases spaced : isSpace byte with
  | false => rfl
  | true =>
      simp only [isSpace, Bool.or_eq_true, decide_eq_true_eq] at spaced
      rcases spaced with ((((rfl | rfl) | rfl) | rfl) | rfl) | rfl <;> revert digit <;> decide

theorem read_sign_digit {byte : Char} (rest : Bytes) (digit : byte.isDigit = true) :
    readSign (byte :: rest) = (false, byte :: rest) := by
  unfold readSign
  split
  · rename_i same
    cases same
    exact absurd digit (by decide)
  · rename_i same
    cases same
    exact absurd digit (by decide)
  · rfl

theorem read_sign_split (text : Bytes) :
    ∃ sign, text = sign ++ (readSign text).2 ∧
      ((sign = [] ∧ (readSign text).1 = false) ∨ (sign = ['+'] ∧ (readSign text).1 = false) ∨
        (sign = ['-'] ∧ (readSign text).1 = true)) := by
  unfold readSign
  split
  · exact ⟨['-'], rfl, Or.inr (Or.inr ⟨rfl, rfl⟩)⟩
  · exact ⟨['+'], rfl, Or.inr (Or.inl ⟨rfl, rfl⟩)⟩
  · exact ⟨[], rfl, Or.inl ⟨rfl, rfl⟩⟩

theorem read_numeral_of_grammar {blanks sign digits rest : Bytes}
    (spaces : ∀ byte ∈ blanks, isSpace byte = true)
    (signs : sign = [] ∨ sign = ['+'] ∨ sign = ['-']) (nonempty : digits ≠ [])
    (allDigits : ∀ byte ∈ digits, byte.isDigit = true) (ends : EndsRun Char.isDigit rest) :
    readNumeral (blanks ++ (sign ++ (digits ++ rest))) =
      some (decide (sign = ['-']), decimal digits) := by
  obtain ⟨first, others, split⟩ := List.exists_cons_of_ne_nil nonempty
  have firstDigit : first.isDigit = true := allDigits first (by simp [split])
  have taken : (digits ++ rest).takeWhile Char.isDigit = digits := take_while_run allDigits ends
  have dropped : (blanks ++ (sign ++ (digits ++ rest))).dropWhile isSpace =
      sign ++ (digits ++ rest) := by
    apply drop_while_run spaces
    rcases signs with rfl | rfl | rfl
    · rw [split]
      exact ends_run_cons (digit_not_space firstDigit)
    · exact ends_run_cons (by decide)
    · exact ends_run_cons (by decide)
  have signRead : readSign (sign ++ (digits ++ rest)) = (decide (sign = ['-']), digits ++ rest) := by
    rcases signs with rfl | rfl | rfl
    · rw [split]
      exact read_sign_digit _ firstDigit
    · rfl
    · rfl
  simp only [readNumeral, dropped, signRead, taken, if_neg nonempty]

theorem read_numeral_iff (text : Bytes) (negative : Bool) (magnitude : Nat) :
    readNumeral text = some (negative, magnitude) ↔
      ∃ blanks sign digits rest : Bytes, text = blanks ++ (sign ++ (digits ++ rest)) ∧
        (∀ byte ∈ blanks, isSpace byte = true) ∧ (sign = [] ∨ sign = ['+'] ∨ sign = ['-']) ∧
        digits ≠ [] ∧ (∀ byte ∈ digits, byte.isDigit = true) ∧ EndsRun Char.isDigit rest ∧
        negative = decide (sign = ['-']) ∧ magnitude = decimal digits := by
  constructor
  · intro numeral
    obtain ⟨sign, signSplit, signs⟩ := read_sign_split (text.dropWhile isSpace)
    simp only [readNumeral] at numeral
    split at numeral
    · cases numeral
    · rename_i nonempty
      cases numeral
      refine ⟨text.takeWhile isSpace, sign,
        (readSign (text.dropWhile isSpace)).2.takeWhile Char.isDigit,
        (readSign (text.dropWhile isSpace)).2.dropWhile Char.isDigit,
        ?_, ?_, ?_, nonempty, ?_, ends_run_drop_while _, ?_, rfl⟩
      · rw [List.takeWhile_append_dropWhile, ← signSplit, List.takeWhile_append_dropWhile]
      · exact fun byte member => List.mem_takeWhile_imp member
      · rcases signs with ⟨rfl, _⟩ | ⟨rfl, _⟩ | ⟨rfl, _⟩ <;> simp
      · exact fun byte member => List.mem_takeWhile_imp member
      · rcases signs with ⟨rfl, positive⟩ | ⟨rfl, positive⟩ | ⟨rfl, negative⟩ <;> assumption
  · rintro ⟨blanks, sign, digits, rest, rfl, spaces, signs, nonempty, allDigits, ends, rfl, rfl⟩
    exact read_numeral_of_grammar spaces signs nonempty allDigits ends

theorem stoul_of_digits {blanks digits rest : Bytes}
    (spaces : ∀ byte ∈ blanks, isSpace byte = true) (nonempty : digits ≠ [])
    (allDigits : ∀ byte ∈ digits, byte.isDigit = true) (ends : EndsRun Char.isDigit rest)
    (bounded : decimal digits ≤ ulongMax) :
    stoul (blanks ++ (digits ++ rest)) = .ok (decimal digits) := by
  have numeral := read_numeral_of_grammar spaces (Or.inl rfl) nonempty allDigits ends
  simp only [List.nil_append] at numeral
  simp [stoul, numeral, Nat.not_lt.mpr bounded]

theorem read_numeral_digits {digits : Bytes} (nonempty : digits ≠ [])
    (allDigits : ∀ byte ∈ digits, byte.isDigit = true) :
    readNumeral digits = some (false, decimal digits) := by
  have noBlanks : ∀ byte ∈ ([] : Bytes), isSpace byte = true := nofun
  have ends : EndsRun Char.isDigit [] := nofun
  have numeral := read_numeral_of_grammar noBlanks (Or.inl rfl) nonempty allDigits ends
  rw [List.nil_append, List.nil_append, List.append_nil] at numeral
  exact numeral

theorem stoi_of_digits {digits : Bytes} (nonempty : digits ≠ [])
    (allDigits : ∀ byte ∈ digits, byte.isDigit = true) (bounded : (decimal digits : Int) ≤ intMax) :
    stoi digits = .ok (decimal digits) := by
  have inRange : ¬ ((decimal digits : Int) < intMin ∨ intMax < (decimal digits : Int)) := by
    unfold intMin intMax at *
    omega
  simp only [stoi, read_numeral_digits nonempty allDigits]
  exact if_neg inRange

theorem stoi_digits_value {digits : Bytes} (nonempty : digits ≠ [])
    (allDigits : ∀ byte ∈ digits, byte.isDigit = true) {value : Int}
    (read : stoi digits = .ok value) : value = decimal digits := by
  simp only [stoi, read_numeral_digits nonempty allDigits, Bool.false_eq_true, if_false] at read
  split_ifs at read
  cases read
  rfl

theorem stoi_bounded {text : Bytes} {value : Int} (read : stoi text = .ok value) :
    value ≤ intMax := by
  unfold stoi at read
  split at read
  · cases read
  · rename_i negative magnitude found
    simp only at read
    generalize (if negative = true then -(magnitude : Int) else magnitude) = number at read
    split_ifs at read with outside
    cases read
    omega

/-- `std::stoul` returns normally on exactly the texts of the grammar. -/
theorem stoul_returns_iff (text : Bytes) :
    (∃ value, stoul text = .ok value) ↔ StartsWithNumeral text := by
  constructor
  · rintro ⟨value, returned⟩
    unfold stoul at returned
    split at returned
    · cases returned
    · rename_i negative magnitude numeral
      have bounded : magnitude ≤ ulongMax := by
        by_contra large
        rw [if_pos (Nat.not_le.mp large)] at returned
        cases returned
      obtain ⟨blanks, sign, digits, rest, split, spaces, signs, nonempty, allDigits, ends, _, same⟩ :=
        (read_numeral_iff text negative magnitude).mp numeral
      exact ⟨blanks, sign, digits, rest, split, spaces, signs, nonempty, allDigits, ends,
        same ▸ bounded⟩
  · rintro ⟨blanks, sign, digits, rest, rfl, spaces, signs, nonempty, allDigits, ends, bounded⟩
    have numeral := read_numeral_of_grammar spaces signs nonempty allDigits ends
    simp only [stoul, numeral, if_neg (Nat.not_lt.mpr bounded)]
    exact ⟨_, rfl⟩

/-- `std::stoi` returns normally on exactly the texts of its grammar. -/
theorem stoi_returns_iff (text : Bytes) :
    (∃ value, stoi text = .ok value) ↔ StartsWithInt text := by
  constructor
  · rintro ⟨value, returned⟩
    unfold stoi at returned
    split at returned
    · cases returned
    · rename_i negative magnitude numeral
      obtain ⟨blanks, sign, digits, rest, split, spaces, signs, nonempty, allDigits, ends, minus,
        same⟩ := (read_numeral_iff text negative magnitude).mp numeral
      refine ⟨blanks, sign, digits, rest, split, spaces, signs, nonempty, allDigits, ends, ?_⟩
      simp only [minus, same, decide_eq_true_eq] at returned
      split_ifs at returned with isMinus outside outside
      all_goals unfold intMin intMax at outside
      · rw [if_pos isMinus]
        omega
      · rw [if_neg isMinus]
        omega
  · rintro ⟨blanks, sign, digits, rest, rfl, spaces, signs, nonempty, allDigits, ends, bounded⟩
    have numeral := read_numeral_of_grammar spaces signs nonempty allDigits ends
    have inside : ¬ ((if sign = ['-'] then -(decimal digits : Int) else decimal digits) < intMin ∨
        intMax < if sign = ['-'] then -(decimal digits : Int) else decimal digits) := by
      unfold intMin intMax
      split_ifs at bounded ⊢ <;> omega
    simp only [stoi, numeral, decide_eq_true_eq, if_neg inside]
    exact ⟨_, rfl⟩

/-- `std::stoi` returns a number above zero on exactly the texts that start so. -/
theorem stoi_positive_iff (text : Bytes) :
    (∃ value, stoi text = .ok value ∧ 0 < value) ↔ StartsPositive text := by
  constructor
  · rintro ⟨value, returned, positive⟩
    have bounded := stoi_bounded returned
    unfold stoi at returned
    split at returned
    · cases returned
    · rename_i negative magnitude numeral
      obtain ⟨blanks, sign, digits, rest, split, spaces, signs, _, allDigits, ends, minus, same⟩ :=
        (read_numeral_iff text negative magnitude).mp numeral
      simp only [minus, same, decide_eq_true_eq] at returned
      split_ifs at returned with isMinus outside outside
      all_goals cases returned
      · omega
      · have plus : sign = [] ∨ sign = ['+'] := by
          rcases signs with none | plus | isSign
          · exact Or.inl none
          · exact Or.inr plus
          · exact absurd isSign isMinus
        exact ⟨blanks, sign, digits, rest, split, spaces, plus, ends, allDigits, by omega, bounded⟩
  · rintro ⟨blanks, sign, digits, rest, rfl, spaces, plus, ends, positive⟩
    have signs : sign = [] ∨ sign = ['+'] ∨ sign = ['-'] := by
      rcases plus with none | plus
      · exact Or.inl none
      · exact Or.inr (Or.inl plus)
    have notMinus : sign ≠ ['-'] := by
      rcases plus with rfl | rfl <;> decide
    have numeral := read_numeral_of_grammar spaces signs positive.nonempty positive.digits ends
    have bounded := positive.bounded
    have above := positive.positive
    have inside : ¬ ((decimal digits : Int) < intMin ∨ intMax < (decimal digits : Int)) := by
      unfold intMin intMax at *
      omega
    refine ⟨decimal digits, ?_, by omega⟩
    simp only [stoi, numeral, decide_eq_false notMinus, Bool.false_eq_true, if_false]
    exact if_neg inside

end RestfulWebserver.Library
