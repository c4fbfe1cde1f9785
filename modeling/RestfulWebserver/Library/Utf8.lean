import RestfulWebserver.Library.Text

/-!
# Characters in UTF-8

A `Char` of a byte string is a byte. A `Char` of a code is a character, and one
to four bytes write it.
-/

namespace RestfulWebserver.Library

abbrev Code := List Char

def encodeChar (character : Char) : Bytes :=
  (String.utf8EncodeChar character).map fun byte => Char.ofNat byte.toNat

def encodeUtf8 (code : Code) : Bytes := code.flatMap encodeChar

def decodeUtf8 (text : Bytes) : Option Code :=
  if text.all fun byte => decide (byte.toNat < 256) then
    (text.map fun byte => UInt8.ofNat byte.toNat).toByteArray.utf8Decode?.map Array.toList
  else none

theorem encode_append (code more : Code) :
    encodeUtf8 (code ++ more) = encodeUtf8 code ++ encodeUtf8 more := List.flatMap_append

theorem encode_cons (character : Char) (code : Code) :
    encodeUtf8 (character :: code) = encodeChar character ++ encodeUtf8 code := rfl

theorem byte_code (byte : UInt8) : (Char.ofNat byte.toNat).toNat = byte.toNat := by
  have small := byte.toNat_lt
  have valid : byte.toNat.isValidChar := Or.inl (by omega)
  rw [Char.ofNat, dif_pos valid]
  rfl

theorem encode_octets (code : Code) :
    (encodeUtf8 code).map (fun byte => UInt8.ofNat byte.toNat) =
      code.flatMap String.utf8EncodeChar := by
  induction code with
  | nil => rfl
  | cons character code ih =>
      have first : (encodeChar character).map (fun byte => UInt8.ofNat byte.toNat) =
          String.utf8EncodeChar character := by
        simp [encodeChar, Function.comp_def, byte_code]
      rw [encode_cons, List.map_append, first, ih]
      rfl

theorem encode_small (code : Code) : ∀ byte ∈ encodeUtf8 code, byte.toNat < 256 := by
  intro byte member
  obtain ⟨character, _, written⟩ := List.mem_flatMap.mp member
  obtain ⟨octet, _, rfl⟩ := List.mem_map.mp written
  rw [byte_code]
  exact octet.toNat_lt

theorem decode_encode (code : Code) : decodeUtf8 (encodeUtf8 code) = some code := by
  have small : ((encodeUtf8 code).all fun byte => decide (byte.toNat < 256)) = true := by
    rw [List.all_eq_true]
    intro byte member
    exact decide_eq_true (encode_small code byte member)
  have octets : (code.flatMap String.utf8EncodeChar).toByteArray = code.utf8Encode := rfl
  rw [decodeUtf8, if_pos small, encode_octets, octets, List.utf8Decode?_utf8Encode]
  rfl

/-- A character below 128 is its own byte, and every byte of another one is above. -/
theorem encode_char_cases (character : Char) :
    (character.toNat < 128 ∧ encodeChar character = [character]) ∨
      (128 ≤ character.toNat ∧ ∀ byte ∈ encodeChar character, 128 ≤ byte.toNat) := by
  by_cases small : character.toNat < 128
  · left
    refine ⟨small, ?_⟩
    have single : String.utf8EncodeChar character = [UInt8.ofNat character.toNat] :=
      if_pos (by change character.toNat ≤ 127; omega)
    have sameCode : (UInt8.ofNat character.toNat).toNat = character.toNat := by
      rw [UInt8.toNat_ofNat']
      omega
    rw [encodeChar, single, List.map_singleton, sameCode, Char.ofNat_toNat]
  · right
    refine ⟨by omega, ?_⟩
    have high : ∀ octet ∈ String.utf8EncodeChar character, 128 ≤ octet.toNat := by
      intro octet member
      change octet ∈ (if character.toNat ≤ 0x7f then _ else _) at member
      rw [if_neg (by omega)] at member
      split_ifs at member with two three
      all_goals simp only [List.mem_cons, List.not_mem_nil, or_false] at member
      · rcases member with rfl | rfl <;> rw [UInt8.toNat_ofNat'] <;> omega
      · rcases member with rfl | rfl | rfl <;> rw [UInt8.toNat_ofNat'] <;> omega
      · rcases member with rfl | rfl | rfl | rfl <;> rw [UInt8.toNat_ofNat'] <;> omega
    intro byte member
    obtain ⟨octet, written, rfl⟩ := List.mem_map.mp member
    rw [byte_code]
    exact high octet written

theorem encode_ascii {code : Code} (small : ∀ character ∈ code, character.toNat < 128) :
    encodeUtf8 code = code := by
  induction code with
  | nil => rfl
  | cons character code ih =>
      obtain ⟨first, later⟩ := List.forall_mem_cons.mp small
      rcases encode_char_cases character with ⟨_, single⟩ | ⟨large, _⟩
      · rw [encode_cons, single, ih later, List.singleton_append]
      · omega

theorem ascii_encoded {byte : Char} {code : Code} (small : byte.toNat < 128)
    (member : byte ∈ encodeUtf8 code) : byte ∈ code := by
  obtain ⟨character, inCode, written⟩ := List.mem_flatMap.mp member
  rcases encode_char_cases character with ⟨_, single⟩ | ⟨_, high⟩
  · rw [single, List.mem_singleton] at written
    rwa [written]
  · have above := high byte written
    omega

end RestfulWebserver.Library
