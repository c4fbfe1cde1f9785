import RestfulWebserver.Library.Utf8

/-!
# JSON texts

A reader for JSON, from bytes to a value. The fuel of the reader bounds how deep
and how long a value may be; `decode` gives it the length of the text. A
`\u` escape for half of a surrogate pair has no character and is refused.
-/

namespace RestfulWebserver.Library

inductive Json where
  | null
  | bool (value : Bool)
  /-- A number is kept as it is written. -/
  | number (text : Code)
  | string (text : Code)
  | array (values : List Json)
  | object (members : List (Code × Json))

namespace Json

def isBlank (character : Char) : Bool :=
  character = ' ' || character = '\t' || character = '\n' || character = '\r'

def skip (text : Code) : Code := text.dropWhile isBlank

/-! ## Strings -/

def hexDigit (digit : Char) : Option Nat :=
  if digit.isDigit then some (digit.toNat - '0'.toNat)
  else if 'a' ≤ digit ∧ digit ≤ 'f' then some (digit.toNat - 'a'.toNat + 10)
  else if 'A' ≤ digit ∧ digit ≤ 'F' then some (digit.toNat - 'A'.toNat + 10)
  else none

def readHex : Code → Option (Nat × Code)
  | first :: second :: third :: fourth :: rest => do
      let first ← hexDigit first
      let second ← hexDigit second
      let third ← hexDigit third
      let fourth ← hexDigit fourth
      some (((first * 16 + second) * 16 + third) * 16 + fourth, rest)
  | _ => none

/-- What follows `\u`: one unit, or the two of a surrogate pair. -/
def readUnicode (text : Code) : Option (Char × Code) := do
  let (unit, rest) ← readHex text
  if 0xD800 ≤ unit ∧ unit < 0xDC00 then
    match rest with
    | '\\' :: 'u' :: rest => do
        let (low, rest) ← readHex rest
        if 0xDC00 ≤ low ∧ low < 0xE000 then
          some (Char.ofNat (0x10000 + (unit - 0xD800) * 0x400 + (low - 0xDC00)), rest)
        else none
    | _ => none
  else if 0xDC00 ≤ unit ∧ unit < 0xE000 then none
  else some (Char.ofNat unit, rest)

def readEscape : Code → Option (Char × Code)
  | '"' :: rest => some ('"', rest)
  | '\\' :: rest => some ('\\', rest)
  | '/' :: rest => some ('/', rest)
  | 'b' :: rest => some ('\x08', rest)
  | 'f' :: rest => some ('\x0c', rest)
  | 'n' :: rest => some ('\n', rest)
  | 'r' :: rest => some ('\r', rest)
  | 't' :: rest => some ('\t', rest)
  | 'u' :: rest => readUnicode rest
  | _ => none

def readCharacter : Code → Option (Char × Code)
  | [] => none
  | character :: rest =>
      if character = '\\' then readEscape rest
      else if character.toNat < 0x20 then none
      else some (character, rest)

def readString : Nat → Code → Option (Code × Code)
  | 0, _ => none
  | fuel + 1, text =>
      if text.head? = some '"' then some ([], text.tail)
      else do
        let (character, rest) ← readCharacter text
        let (more, rest) ← readString fuel rest
        some (character :: more, rest)

/-! ## Numbers -/

def readDigits (text : Code) : Option (Code × Code) :=
  let digits := text.takeWhile Char.isDigit
  if digits = [] then none else some (digits, text.dropWhile Char.isDigit)

def readWhole : Code → Option (Code × Code)
  | '0' :: rest => some (['0'], rest)
  | text => readDigits text

def readFraction : Code → Option (Code × Code)
  | '.' :: rest => do
      let (digits, rest) ← readDigits rest
      some ('.' :: digits, rest)
  | text => some ([], text)

def readExponent : Code → Option (Code × Code)
  | [] => some ([], [])
  | mark :: rest =>
      if mark = 'e' ∨ mark = 'E' then do
        let sign := rest.take (if rest.head? = some '+' ∨ rest.head? = some '-' then 1 else 0)
        let (digits, rest) ← readDigits (rest.drop sign.length)
        some (mark :: (sign ++ digits), rest)
      else some ([], mark :: rest)

def readNumber (text : Code) : Option (Code × Code) := do
  let sign := text.take (if text.head? = some '-' then 1 else 0)
  let (whole, rest) ← readWhole (text.drop sign.length)
  let (fraction, rest) ← readFraction rest
  let (exponent, rest) ← readExponent rest
  some (sign ++ (whole ++ (fraction ++ exponent)), rest)

/-! ## Values -/

mutual

def readValue : Nat → Code → Option (Json × Code)
  | 0, _ => none
  | fuel + 1, text =>
      match text with
      | '"' :: rest => do
          let (text, rest) ← readString (rest.length + 1) rest
          some (.string text, rest)
      | '[' :: rest =>
          if (skip rest).head? = some ']' then some (.array [], (skip rest).tail)
          else do
            let (values, rest) ← readElements fuel rest
            some (.array values, rest)
      | '\x7b' :: rest =>
          if (skip rest).head? = some '\x7d' then some (.object [], (skip rest).tail)
          else do
            let (members, rest) ← readMembers fuel rest
            some (.object members, rest)
      | 'n' :: 'u' :: 'l' :: 'l' :: rest => some (.null, rest)
      | 't' :: 'r' :: 'u' :: 'e' :: rest => some (.bool true, rest)
      | 'f' :: 'a' :: 'l' :: 's' :: 'e' :: rest => some (.bool false, rest)
      | text => do
          let (text, rest) ← readNumber text
          some (.number text, rest)

def readElements : Nat → Code → Option (List Json × Code)
  | 0, _ => none
  | fuel + 1, text => do
      let (value, rest) ← readValue fuel (skip text)
      match skip rest with
      | ',' :: rest => do
          let (values, rest) ← readElements fuel rest
          some (value :: values, rest)
      | ']' :: rest => some ([value], rest)
      | _ => none

def readMembers : Nat → Code → Option (List (Code × Json) × Code)
  | 0, _ => none
  | fuel + 1, text =>
      match skip text with
      | '"' :: rest => do
          let (name, rest) ← readString (rest.length + 1) rest
          match skip rest with
          | ':' :: rest => do
              let (value, rest) ← readValue fuel (skip rest)
              match skip rest with
              | ',' :: rest => do
                  let (members, rest) ← readMembers fuel rest
                  some ((name, value) :: members, rest)
              | '\x7d' :: rest => some ([(name, value)], rest)
              | _ => none
          | _ => none
      | _ => none

end

/-- The value that a text of bytes writes: blanks, a value, blanks. -/
def decode (text : Bytes) : Option Json := do
  let code ← decodeUtf8 text
  let (value, rest) ← readValue (code.length + 1) (skip code)
  if skip rest = [] then some value else none

def text : Json → Option Bytes
  | .string text => some (encodeUtf8 text)
  | _ => none

def strings : Json → Option (List Bytes)
  | .array values => values.mapM Json.text
  | _ => none

def member (name : Code) : Json → Option Json
  | .object members => (members.find? fun entry => entry.1 = name).map Prod.snd
  | _ => none

/-! ## Strings that need no escapes -/

/-- A string stands for itself when nothing in it would have to be escaped. -/
def Unescaped (text : Code) : Prop :=
  ∀ character ∈ text, character ≠ '"' ∧ character ≠ '\\' ∧ 0x20 ≤ character.toNat

def quoted (text : Code) : Code := '"' :: (text ++ ['"'])

theorem read_string_unescaped {text : Code} (unescaped : Unescaped text) (rest : Code) {fuel : Nat}
    (enough : text.length < fuel) : readString fuel (text ++ '"' :: rest) = some (text, rest) := by
  induction text generalizing fuel with
  | nil =>
      cases fuel with
      | zero => omega
      | succ fuel => rfl
  | cons character text ih =>
      obtain ⟨⟨noQuote, noEscape, printed⟩, later⟩ := List.forall_mem_cons.mp unescaped
      cases fuel with
      | zero => omega
      | succ fuel =>
          rw [List.length_cons] at enough
          have taken : readCharacter (character :: (text ++ '"' :: rest)) =
              some (character, text ++ '"' :: rest) := by
            rw [readCharacter, if_neg noEscape, if_neg (by omega)]
          rw [List.cons_append, readString, if_neg (by simpa using noQuote), taken]
          have more := ih later (by omega : text.length < fuel)
          simp only [Option.bind_eq_bind, Option.bind_some, more]

theorem read_quoted {text : Code} (unescaped : Unescaped text) (rest : Code) (fuel : Nat) :
    readValue (fuel + 1) (quoted text ++ rest) = some (.string text, rest) := by
  have opened : quoted text ++ rest = '"' :: (text ++ '"' :: rest) := by simp [quoted]
  have inside := read_string_unescaped unescaped rest
    (by simp only [List.length_append, List.length_cons]; omega :
      text.length < (text ++ '"' :: rest).length + 1)
  rw [opened, readValue, inside]
  rfl

/-! ## Arrays of strings -/

def listed (texts : List Code) : Code := ((texts.map quoted).intersperse [',']).flatten

theorem listed_cons (text next : Code) (texts : List Code) :
    listed (text :: next :: texts) = quoted text ++ ',' :: listed (next :: texts) := by
  simp [listed]

theorem skip_quoted (text rest : Code) : skip (quoted text ++ rest) = quoted text ++ rest := rfl

theorem read_listed {text : Code} {texts : List Code}
    (unescaped : ∀ other ∈ text :: texts, Unescaped other) (rest : Code) {fuel : Nat}
    (enough : texts.length + 1 < fuel) :
    readElements fuel (listed (text :: texts) ++ ']' :: rest) =
      some ((text :: texts).map .string, rest) := by
  induction texts generalizing text fuel with
  | nil =>
      obtain ⟨first, _⟩ := List.forall_mem_cons.mp unescaped
      have whole : listed [text] ++ ']' :: rest = quoted text ++ ']' :: rest := by simp [listed]
      obtain ⟨fuel, rfl⟩ : ∃ less, fuel = less + 2 := ⟨fuel - 2, by omega⟩
      rw [whole, readElements, skip_quoted, read_quoted first]
      rfl
  | cons next texts ih =>
      obtain ⟨first, later⟩ := List.forall_mem_cons.mp unescaped
      rw [List.length_cons] at enough
      obtain ⟨fuel, rfl⟩ : ∃ less, fuel = less + 2 := ⟨fuel - 2, by omega⟩
      have more := ih later (by omega : texts.length + 1 < fuel + 1)
      rw [listed_cons, List.append_assoc, List.cons_append, readElements, skip_quoted,
        read_quoted first]
      change ((readElements (fuel + 1) (listed (next :: texts) ++ ']' :: rest)).bind _) = _
      rw [more]
      rfl

theorem length_listed (texts : List Code) : texts.length ≤ (listed texts).length := by
  induction texts with
  | nil => exact Nat.zero_le _
  | cons text texts ih =>
      cases texts with
      | nil => simp [listed, quoted]
      | cons next texts =>
          rw [listed_cons]
          simp only [List.length_append, List.length_cons] at ih ⊢
          omega

theorem listed_front (text : Code) (texts : List Code) :
    ∃ rest, listed (text :: texts) = '"' :: rest := by
  cases texts with
  | nil => exact ⟨text ++ ['"'], by simp [listed, quoted]⟩
  | cons next texts =>
      rw [listed_cons]
      exact ⟨_, rfl⟩

/-- An array of strings that need no escapes decodes to them. -/
theorem decode_listed {texts : List Code} (unescaped : ∀ text ∈ texts, Unescaped text) :
    decode (encodeUtf8 ('[' :: (listed texts ++ [']']))) = some (.array (texts.map .string)) := by
  have opened : skip ('[' :: (listed texts ++ [']'])) = '[' :: (listed texts ++ [']']) := rfl
  cases texts with
  | nil =>
      rw [decode, decode_encode]
      rfl
  | cons text texts =>
      have closed : (skip (listed (text :: texts) ++ [']'])).head? ≠ some ']' := by
        obtain ⟨rest, front⟩ := listed_front text texts
        rw [front]
        exact fun same => absurd (Option.some.inj same) (by decide)
      have size := length_listed (text :: texts)
      have elements := @read_listed text texts unescaped []
        ('[' :: (listed (text :: texts) ++ [']'])).length (by
          simp only [List.length_cons, List.length_append] at size ⊢
          omega)
      rw [decode, decode_encode]
      simp only [Option.bind_eq_bind, Option.bind_some, opened]
      rw [readValue, if_neg closed, elements]
      rfl

theorem strings_listed (texts : List Code) :
    strings (.array (texts.map .string)) = some (texts.map encodeUtf8) := by
  rw [strings, List.mapM_map]
  induction texts with
  | nil => rfl
  | cons first texts ih =>
      rw [List.mapM_cons, ih]
      rfl

/-! ## An object with one string -/

def single (name text : Code) : Code :=
  '\x7b' :: (quoted name ++ ':' :: ' ' :: (quoted text ++ ['\x7d']))

theorem decode_single {name text : Code} (nameUnescaped : Unescaped name)
    (unescaped : Unescaped text) :
    decode (encodeUtf8 (single name text)) = some (.object [(name, .string text)]) := by
  have opened : quoted name ++ ':' :: ' ' :: (quoted text ++ ['\x7d']) =
      '"' :: (name ++ '"' :: ':' :: ' ' :: (quoted text ++ ['\x7d'])) := by simp [quoted]
  have named := @read_string_unescaped name nameUnescaped
    (':' :: ' ' :: (quoted text ++ ['\x7d']))
    ((name ++ '"' :: ':' :: ' ' :: (quoted text ++ ['\x7d'])).length + 1)
    (by simp only [List.length_append]; omega)
  have members : ∀ fuel, readMembers (fuel + 2)
      (quoted name ++ ':' :: ' ' :: (quoted text ++ ['\x7d'])) =
        some ([(name, .string text)], []) := by
    intro fuel
    rw [opened, readMembers]
    change ((readString _ _).bind _) = _
    rw [named]
    change ((readValue (fuel + 1) (skip (quoted text ++ ['\x7d']))).bind _) = _
    rw [skip_quoted, read_quoted unescaped]
    rfl
  obtain ⟨fuel, size⟩ : ∃ fuel, (single name text).length = fuel + 2 :=
    ⟨(single name text).length - 2, by simp [single, quoted]⟩
  have closed : (skip (quoted name ++ ':' :: ' ' :: (quoted text ++ ['\x7d']))).head? ≠
      some '\x7d' := by
    rw [skip_quoted, opened]
    exact fun same => absurd (Option.some.inj same) (by decide)
  have front : skip (single name text) = single name text := rfl
  rw [decode, decode_encode]
  simp only [Option.bind_eq_bind, Option.bind_some, front, size]
  rw [single, readValue, if_neg closed, members]
  rfl

end Json

end RestfulWebserver.Library
