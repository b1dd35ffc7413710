import Mathlib.Tactic.IntervalCases
import Abacus.Text.Utf8

/-!
# Text written in UTF-8 and read back

The first byte of a character tells how many follow and gives the highest of its bits; the rest add
six bits each. The bounds on the second byte, narrower after some first bytes, keep out what is not
the shortest form of a character or not a character at all, and the bytes of a character are within
them. So reading takes a character off the bytes as it was put there.
-/

namespace Abacus.Text

variable {n m bits : Nat} {low high : UInt8} {c : Char} {rest : List UInt8}

theorem lead?_one (hn : n < 128) : lead? (UInt8.ofNat n) = some ⟨0, 0x80, 0xBF, n⟩ := by
  interval_cases n <;> rfl

theorem lead?_two (hlow : 2 ≤ n) (hhigh : n < 32) :
    lead? (UInt8.ofNat (n + 192)) = some ⟨1, 0x80, 0xBF, n⟩ := by
  interval_cases n <;> rfl

theorem lead?_three (hn : n < 16) :
    lead? (UInt8.ofNat (n + 224)) =
      some ⟨2, if n = 0 then 0xA0 else 0x80, if n = 13 then 0x9F else 0xBF, n⟩ := by
  interval_cases n <;> rfl

theorem lead?_four (hn : n < 5) :
    lead? (UInt8.ofNat (n + 240)) =
      some ⟨3, if n = 0 then 0x90 else 0x80, if n = 4 then 0x8F else 0xBF, n⟩ := by
  interval_cases n <;> rfl

theorem continuation_cons (hlow : low.toNat ≤ m + 128) (hhigh : m + 128 ≤ high.toNat) :
    continuation (n + 1) low high bits (UInt8.ofNat (m + 128) :: rest) =
      continuation n 0x80 0xBF (bits * 64 + m) rest := by
  have hbyte := high.toNat_lt
  have hvalue : (UInt8.ofNat (m + 128)).toNat = m + 128 := by
    rw [UInt8.toNat_ofNat']
    omega
  rw [continuation, if_pos, hvalue, Nat.add_sub_cancel]
  simp only [Bool.and_eq_true, decide_eq_true_eq, UInt8.le_iff_toNat_le, hvalue]
  exact ⟨hlow, hhigh⟩

/-- A byte after the second one has no bounds of its own. -/
theorem continuation_cons_free (hm : m < 64) :
    continuation (n + 1) 0x80 0xBF bits (UInt8.ofNat (m + 128) :: rest) =
      continuation n 0x80 0xBF (bits * 64 + m) rest := by
  apply continuation_cons
  · show 128 ≤ _
    omega
  · show _ ≤ 191
    omega

theorem decodeFirst_of_lead {b : UInt8} {l : Lead} (h : lead? b = some l) :
    decodeFirst b rest =
      ((continuation l.following l.low l.high l.bits rest).1.map Char.ofNat,
        (continuation l.following l.low l.high l.bits rest).2) := by
  rw [decodeFirst, h]

theorem decodeParts_cons_of_lead {b : UInt8} {l : Lead} {bytes : List UInt8} (h : lead? b = some l)
    (hc : continuation l.following l.low l.high l.bits bytes = (some c.toNat, rest)) :
    decodeParts (b :: bytes) = some c :: decodeParts rest := by
  rw [decodeParts, decodeFirst_of_lead h, hc, Option.map_some, Char.ofNat_toNat]

/-! ## Characters of each length -/

theorem toNat_valid (c : Char) : c.toNat < 0xD800 ∨ (0xDFFF < c.toNat ∧ c.toNat < 0x110000) :=
  c.valid

theorem decodeParts_one (h : c.toNat ≤ 127) :
    decodeParts (UInt8.ofNat c.toNat :: rest) = some c :: decodeParts rest :=
  decodeParts_cons_of_lead (lead?_one (by omega)) rfl

theorem decodeParts_two (hlow : 127 < c.toNat) (hhigh : c.toNat ≤ 2047) :
    decodeParts (UInt8.ofNat (c.toNat / 64 % 32 + 192) :: UInt8.ofNat (c.toNat % 64 + 128) ::
      rest) = some c :: decodeParts rest := by
  refine decodeParts_cons_of_lead (lead?_two (by omega) (by omega)) ?_
  dsimp only
  rw [continuation_cons_free (by omega), continuation]
  congr 2
  omega

theorem decodeParts_three (hlow : 2047 < c.toNat) (hhigh : c.toNat ≤ 65535) :
    decodeParts (UInt8.ofNat (c.toNat / 4096 % 16 + 224) ::
      UInt8.ofNat (c.toNat / 64 % 64 + 128) :: UInt8.ofNat (c.toNat % 64 + 128) :: rest) =
        some c :: decodeParts rest := by
  have hvalid := toNat_valid c
  refine decodeParts_cons_of_lead (lead?_three (by omega)) ?_
  dsimp only
  -- The second byte keeps out the shorter forms and the surrogates.
  rw [continuation_cons ?_ ?_, continuation_cons_free (by omega), continuation]
  · congr 2
    omega
  · split
    · show 160 ≤ _
      omega
    · show 128 ≤ _
      omega
  · split
    · show _ ≤ 159
      omega
    · show _ ≤ 191
      omega

theorem decodeParts_four (hlow : 65535 < c.toNat) :
    decodeParts (UInt8.ofNat (c.toNat / 262144 % 8 + 240) ::
      UInt8.ofNat (c.toNat / 4096 % 64 + 128) :: UInt8.ofNat (c.toNat / 64 % 64 + 128) ::
        UInt8.ofNat (c.toNat % 64 + 128) :: rest) = some c :: decodeParts rest := by
  have hvalid := toNat_valid c
  refine decodeParts_cons_of_lead (lead?_four (by omega)) ?_
  dsimp only
  -- The second byte keeps out the shorter forms and what is beyond the last character.
  rw [continuation_cons ?_ ?_, continuation_cons_free (by omega),
    continuation_cons_free (by omega), continuation]
  · congr 2
    omega
  · split
    · show 144 ≤ _
      omega
    · show 128 ≤ _
      omega
  · split
    · show _ ≤ 143
      omega
    · show _ ≤ 191
      omega

/-- A character comes off the bytes as it was put there. -/
theorem decodeParts_encodeChar (c : Char) (rest : List UInt8) :
    decodeParts (String.utf8EncodeChar c ++ rest) = some c :: decodeParts rest := by
  have hv : c.val.toNat = c.toNat := rfl
  rw [String.utf8EncodeChar]
  simp only [hv]
  split
  · next h1 => exact decodeParts_one h1
  · next h1 =>
      split
      · next h2 => exact decodeParts_two (by omega) h2
      · next h2 =>
          split
          · next h3 => exact decodeParts_three (by omega) h3
          · next h3 => exact decodeParts_four (by omega)

theorem decodeParts_encode (text : List Char) :
    decodeParts (text.flatMap String.utf8EncodeChar) = text.map some := by
  induction text with
  | nil => rw [List.flatMap_nil, decodeParts, List.map_nil]
  | cons c text ih => rw [List.flatMap_cons, decodeParts_encodeChar, ih, List.map_cons]

/-- What is written in UTF-8 is read as it was. -/
theorem decodeLenient_toUTF8 (text : String) :
    decodeLenient text.toUTF8.data.toList = text := by
  have hbytes : text.toUTF8.data.toList = text.toList.flatMap String.utf8EncodeChar := by
    rw [String.toUTF8_eq_toByteArray, ← String.utf8Encode_toList, List.utf8Encode,
      List.toList_data_toByteArray]
  rw [decodeLenient, hbytes, decodeParts_encode, List.map_map]
  simp

end Abacus.Text
