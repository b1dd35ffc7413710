import Abacus.Proofs.Encoding
import Abacus.Text.Utf16

/-!
# Text in UTF-16 units

Columns are only counted in UTF-16 units, so that the units themselves need not be there to count
them. To say what a range of columns covers they are written out here. A character of the basic
plane is its own unit. One beyond it is a pair of surrogates, units that no character has for its
own, with ten bits of its number in each of them. A unit that ends a pair begins nothing, which is
why no pair is divided where a text is cut between two characters, and the pieces can be read back.
-/

namespace Abacus.Text

/-- The first unit of a pair. -/
def IsHigh (u : UInt16) : Prop :=
  0xD800 ≤ u.toNat ∧ u.toNat ≤ 0xDBFF

/-- The second unit of a pair. -/
def IsLow (u : UInt16) : Prop :=
  0xDC00 ≤ u.toNat ∧ u.toNat ≤ 0xDFFF

instance (u : UInt16) : Decidable (IsHigh u) := inferInstanceAs (Decidable (_ ∧ _))

instance (u : UInt16) : Decidable (IsLow u) := inferInstanceAs (Decidable (_ ∧ _))

/-- The units of a character. -/
def encodeChar16 (c : Char) : List UInt16 :=
  if c.toNat < 0x10000 then [UInt16.ofNat c.toNat]
  else [UInt16.ofNat (0xD800 + (c.toNat - 0x10000) / 0x400),
    UInt16.ofNat (0xDC00 + (c.toNat - 0x10000) % 0x400)]

def encode16 (text : List Char) : List UInt16 :=
  text.flatMap encodeChar16

/-- The character of a pair. -/
def pair (high low : UInt16) : Char :=
  Char.ofNat (0x10000 + (high.toNat - 0xD800) * 0x400 + (low.toNat - 0xDC00))

/-- The text of some units. There is none if a surrogate stands alone. -/
def decode16 : List UInt16 → Option (List Char)
  | [] => some []
  | u :: rest =>
    if IsHigh u then
      match rest with
      | [] => none
      | v :: rest => if IsLow v then (decode16 rest).map (pair u v :: ·) else none
    else if IsLow u then none
    else (decode16 rest).map (Char.ofNat u.toNat :: ·)

/-- A place between the two units of a pair. -/
def InsidePair (units : List UInt16) (n : Nat) : Prop :=
  ∃ before high low after, units = before ++ high :: low :: after ∧ before.length + 1 = n ∧
    IsHigh high ∧ IsLow low

variable {t : List Char} {c : Char}

theorem encode16_append (s t : List Char) : encode16 (s ++ t) = encode16 s ++ encode16 t :=
  List.flatMap_append

theorem length_encodeChar16 (c : Char) : (encodeChar16 c).length = units16 c := by
  rw [encodeChar16, units16]
  split <;> rfl

theorem length_encode16 (text : List Char) : (encode16 text).length = length16 text := by
  induction text with
  | nil => rfl
  | cons c text ih =>
      rw [encode16, List.flatMap_cons, List.length_append, length_encodeChar16, length16, ← ih]
      rfl

/-! ## Characters read back -/

theorem decode16_single {rest : List UInt16} (h : c.toNat < 0x10000) :
    decode16 (UInt16.ofNat c.toNat :: rest) = (decode16 rest).map (c :: ·) := by
  have hvalid := toNat_valid c
  have hunit : (UInt16.ofNat c.toNat).toNat = c.toNat := UInt16.toNat_ofNat_of_lt' h
  have hhigh : ¬ IsHigh (UInt16.ofNat c.toNat) := by
    rw [IsHigh, hunit]
    omega
  have hlow : ¬ IsLow (UInt16.ofNat c.toNat) := by
    rw [IsLow, hunit]
    omega
  rw [decode16.eq_def]
  dsimp only
  rw [if_neg hhigh, if_neg hlow, hunit, Char.ofNat_toNat]

theorem decode16_pair {rest : List UInt16} (h : ¬ c.toNat < 0x10000) :
    decode16 (UInt16.ofNat (0xD800 + (c.toNat - 0x10000) / 0x400) ::
      UInt16.ofNat (0xDC00 + (c.toNat - 0x10000) % 0x400) :: rest) =
        (decode16 rest).map (c :: ·) := by
  have hvalid := toNat_valid c
  have hfirst : (UInt16.ofNat (0xD800 + (c.toNat - 0x10000) / 0x400)).toNat =
      0xD800 + (c.toNat - 0x10000) / 0x400 :=
    UInt16.toNat_ofNat_of_lt' (by show _ < 65536; omega)
  have hsecond : (UInt16.ofNat (0xDC00 + (c.toNat - 0x10000) % 0x400)).toNat =
      0xDC00 + (c.toNat - 0x10000) % 0x400 :=
    UInt16.toNat_ofNat_of_lt' (by show _ < 65536; omega)
  have hhigh : IsHigh (UInt16.ofNat (0xD800 + (c.toNat - 0x10000) / 0x400)) := by
    rw [IsHigh, hfirst]
    omega
  have hlow : IsLow (UInt16.ofNat (0xDC00 + (c.toNat - 0x10000) % 0x400)) := by
    rw [IsLow, hsecond]
    omega
  have hnumber : 0x10000 + (0xD800 + (c.toNat - 0x10000) / 0x400 - 0xD800) * 0x400 +
      (0xDC00 + (c.toNat - 0x10000) % 0x400 - 0xDC00) = c.toNat := by omega
  rw [decode16.eq_def]
  dsimp only
  rw [if_pos hhigh, if_pos hlow, pair, hfirst, hsecond, hnumber, Char.ofNat_toNat]

theorem decode16_encodeChar16 (c : Char) (rest : List UInt16) :
    decode16 (encodeChar16 c ++ rest) = (decode16 rest).map (c :: ·) := by
  rw [encodeChar16]
  split
  · next h => exact decode16_single h
  · next h => exact decode16_pair h

theorem decode16_encode16 (text : List Char) : decode16 (encode16 text) = some text := by
  induction text with
  | nil => rfl
  | cons c text ih =>
      have hfirst := decode16_encodeChar16 c (encode16 text)
      rw [ih] at hfirst
      exact hfirst

/-! ## Places between characters -/

theorem not_isLow_of_mem_head?_encode16 {u : UInt16} (h : u ∈ (encode16 t).head?) : ¬ IsLow u := by
  cases t with
  | nil => cases h
  | cons c t =>
      have hvalid := toNat_valid c
      rw [encode16, List.flatMap_cons, encodeChar16] at h
      split at h
      · next hc =>
          cases h
          rw [IsLow, UInt16.toNat_ofNat_of_lt' hc]
          omega
      · cases h
        rw [IsLow, UInt16.toNat_ofNat_of_lt' (by show _ < 65536; omega)]
        omega

/-- No pair of surrogates is divided between two pieces of a text. -/
theorem not_insidePair_append (s t : List Char) :
    ¬ InsidePair (encode16 (s ++ t)) (length16 s) := by
  rintro ⟨before, high, low, after, hunits, hlength, -, hlow⟩
  rw [encode16_append, ← List.singleton_append, ← List.append_assoc] at hunits
  have hsame : (encode16 s).length = (before ++ [high]).length := by
    rw [length_encode16, ← hlength, List.length_append, List.length_singleton]
  have hrest := List.append_inj_right hunits hsame
  exact not_isLow_of_mem_head?_encode16 (by rw [hrest]; rfl) hlow

/-- The units between two places of a text are those of the characters between them. -/
theorem take_drop_encode16 (s mid t : List Char) :
    ((encode16 (s ++ (mid ++ t))).drop (length16 s)).take (length16 mid) = encode16 mid := by
  rw [encode16_append, encode16_append, ← length_encode16, ← length_encode16, List.drop_left,
    List.take_left]

end Abacus.Text
