import Abacus.Proofs.Encoding

/-!
# Bytes that stand for themselves

A byte below 80 is a character of its own wherever it stands: no byte before it can take it in,
not even one that waits for more. So reading can be cut before every such byte, and whatever is
invalid on one side does not touch the other. In the other direction, a character below 80 comes
from nowhere else. The shortest forms and the limits on the second byte see to that, and they also
see to it that every number that is read is the number of a character.
-/

namespace Abacus.Text

variable {b low high : UInt8} {l : Lead} {n bits m : Nat} {c : Char} {left right rest : List UInt8}

/-- The lenient reading, as a list. -/
def decodeChars (bytes : List UInt8) : List Char :=
  (decodeParts bytes).map (Option.getD · replacement)

/-! ## Reading stops before the byte -/

theorem lead?_of_lt (hb : b < 0x80) : lead? b = some ⟨0, 0x80, 0xBF, b.toNat⟩ := by
  rw [lead?, if_pos hb]

/-- What a byte can announce: itself, or one to three bytes more. -/
theorem lead_cases (h : lead? b = some l) :
    (b < 0x80 ∧ l = ⟨0, 0x80, 0xBF, b.toNat⟩) ∨
    (∃ n, 2 ≤ n ∧ n < 32 ∧ l = ⟨1, 0x80, 0xBF, n⟩) ∨
    (∃ n, n < 16 ∧
      l = ⟨2, if n = 0 then 0xA0 else 0x80, if n = 13 then 0x9F else 0xBF, n⟩) ∨
    ∃ n, n < 5 ∧ l = ⟨3, if n = 0 then 0x90 else 0x80, if n = 4 then 0x8F else 0xBF, n⟩ := by
  unfold lead? at h
  simp only [UInt8.lt_iff_toNat_lt, beq_iff_eq, ← UInt8.toNat_inj, UInt8.reduceToNat] at h ⊢
  -- Each of the tests leaves its own range for the byte.
  repeat' split at h
  · next hlt => exact .inl ⟨hlt, (Option.some.inj h).symm⟩
  · cases h
  · exact .inr (.inl ⟨_, by omega, by omega, (Option.some.inj h).symm⟩)
  · exact .inr (.inr (.inl ⟨0, by omega, (Option.some.inj h).symm⟩))
  · exact .inr (.inr (.inl ⟨13, by omega, (Option.some.inj h).symm⟩))
  · refine .inr (.inr (.inl ⟨b.toNat - 224, by omega, ?_⟩))
    rw [if_neg (by omega), if_neg (by omega)]
    exact (Option.some.inj h).symm
  · exact .inr (.inr (.inr ⟨0, by omega, (Option.some.inj h).symm⟩))
  · refine .inr (.inr (.inr ⟨b.toNat - 240, by omega, ?_⟩))
    rw [if_neg (by omega), if_neg (by omega)]
    exact (Option.some.inj h).symm
  · exact .inr (.inr (.inr ⟨4, by omega, (Option.some.inj h).symm⟩))
  · cases h

theorem le_low_of_lead (h : lead? b = some l) : 0x80 ≤ l.low := by
  rcases lead_cases h with ⟨-, rfl⟩ | ⟨n, -, -, rfl⟩ | ⟨n, -, rfl⟩ | ⟨n, -, rfl⟩
  · exact UInt8.le_refl _
  · exact UInt8.le_refl _
  · dsimp only
    split <;> decide
  · dsimp only
    split <;> decide

theorem continuation_append (hb : b < 0x80) (hlow : 0x80 ≤ low) :
    continuation n low high bits (left ++ b :: rest) =
      ((continuation n low high bits left).1,
        (continuation n low high bits left).2 ++ b :: rest) := by
  have hout : ∀ low : UInt8, 0x80 ≤ low → (decide (low ≤ b)) = false := by
    intro low hlow
    rw [decide_eq_false_iff_not, UInt8.not_le]
    exact UInt8.lt_of_lt_of_le hb hlow
  fun_induction continuation n low high bits left with
  | case1 => rw [continuation]
  | case2 => rw [List.nil_append, continuation, hout _ hlow]; rfl
  | case3 n low high bits b' left h ih =>
      rw [List.cons_append, continuation, if_pos h, ih (by decide)]
  | case4 n low high bits b' left h => rw [List.cons_append, continuation, if_neg h]

theorem decodeFirst_append (hb : b < 0x80) (b' : UInt8) :
    decodeFirst b' (left ++ b :: rest) =
      ((decodeFirst b' left).1, (decodeFirst b' left).2 ++ b :: rest) := by
  rw [decodeFirst, decodeFirst]
  cases h : lead? b' with
  | none => rfl
  | some l => simp only [continuation_append hb (le_low_of_lead h)]

theorem decodeFirst_of_lt (hb : b < 0x80) :
    decodeFirst b rest = (some (Char.ofNat b.toNat), rest) := by
  rw [decodeFirst, lead?_of_lt hb]
  rfl

/-- Wherever such a byte stands, what is before it is read as if nothing followed. -/
theorem decodeParts_append (hb : b < 0x80) (left rest : List UInt8) :
    decodeParts (left ++ b :: rest) =
      decodeParts left ++ some (Char.ofNat b.toNat) :: decodeParts rest := by
  fun_induction decodeParts left with
  | case1 => rw [List.nil_append, decodeParts, decodeFirst_of_lt hb]; rfl
  | case2 b' left ih => rw [List.cons_append, decodeParts, decodeFirst_append hb, ih]; rfl

theorem decodeChars_append (hb : b < 0x80) (left rest : List UInt8) :
    decodeChars (left ++ b :: rest) =
      decodeChars left ++ Char.ofNat b.toNat :: decodeChars rest := by
  rw [decodeChars, decodeParts_append hb, List.map_append]
  rfl

/-! ## Where a character below 80 comes from -/

/-- Each byte that follows adds six bits. -/
theorem continuation_bounds (h : (continuation n 0x80 0xBF bits rest).1 = some m) :
    bits * 64 ^ n ≤ m ∧ m < (bits + 1) * 64 ^ n := by
  induction n generalizing bits rest with
  | zero =>
      cases h
      omega
  | succ n ih =>
      cases rest with
      | nil => cases h
      | cons b rest =>
          rw [continuation] at h
          split at h
          · next hb =>
              obtain ⟨hle, hlt⟩ := ih h
              have hb : b.toNat ≤ 191 := by
                rw [Bool.and_eq_true, decide_eq_true_eq, decide_eq_true_eq] at hb
                exact UInt8.le_iff_toNat_le.1 hb.2
              rw [Nat.pow_succ', ← Nat.mul_assoc, ← Nat.mul_assoc]
              constructor
              · exact Nat.le_trans (Nat.mul_le_mul_right _ (by omega)) hle
              · exact Nat.lt_of_lt_of_le hlt (Nat.mul_le_mul_right _ (by omega))
          · cases h

/-- The second byte has bounds of its own. -/
theorem continuation_succ_bounds (h : (continuation (n + 1) low high bits rest).1 = some m) :
    (bits * 64 + (low.toNat - 128)) * 64 ^ n ≤ m ∧
      m < (bits * 64 + (high.toNat - 128) + 1) * 64 ^ n := by
  cases rest with
  | nil => cases h
  | cons b rest =>
      rw [continuation] at h
      split at h
      · next hb =>
          obtain ⟨hle, hlt⟩ := continuation_bounds h
          rw [Bool.and_eq_true, decide_eq_true_eq, decide_eq_true_eq, UInt8.le_iff_toNat_le,
            UInt8.le_iff_toNat_le] at hb
          constructor
          · exact Nat.le_trans (Nat.mul_le_mul_right _ (by omega)) hle
          · exact Nat.lt_of_lt_of_le hlt (Nat.mul_le_mul_right _ (by omega))
      · cases h

/-- More than one byte makes a number from 80 on, and never one without a character. -/
theorem number_of_lead (hlead : lead? b = some l) (hb : ¬ b < 0x80)
    (h : (continuation l.following l.low l.high l.bits rest).1 = some m) :
    128 ≤ m ∧ m.isValidChar := by
  rcases lead_cases hlead with ⟨hlt, -⟩ | ⟨n, hle, hlt, rfl⟩ | ⟨n, hlt, rfl⟩ | ⟨n, hlt, rfl⟩
  · exact absurd hlt hb
  · have hbounds := continuation_succ_bounds h
    simp only [UInt8.reduceToNat] at hbounds
    constructor
    · omega
    · left
      omega
  · have hbounds := continuation_succ_bounds h
    simp only at hbounds
    constructor
    · split at hbounds <;> simp only [UInt8.reduceToNat] at hbounds <;> omega
    · by_cases h13 : n = 13
      · subst h13
        left
        simp at hbounds
        omega
      · simp only [h13, if_false, UInt8.reduceToNat] at hbounds
        by_cases hlow : n < 13
        · left
          omega
        · right
          omega
  · have hbounds := continuation_succ_bounds h
    simp only at hbounds
    constructor
    · split at hbounds <;> simp only [UInt8.reduceToNat] at hbounds <;> omega
    · right
      refine ⟨?_, ?_⟩
      · split at hbounds <;> simp only [UInt8.reduceToNat] at hbounds <;> omega
      · by_cases h4 : n = 4
        · subst h4
          simp at hbounds
          omega
        · simp only [h4, if_false, UInt8.reduceToNat] at hbounds
          omega

theorem toNat_ofNat_of_isValidChar (h : n.isValidChar) : (Char.ofNat n).toNat = n := by
  rw [Char.ofNat, dif_pos h]
  rfl

/-- A character below 80 is read from the byte that stands for it. -/
theorem decodeFirst_of_ascii (h : (decodeFirst b rest).1 = some c) (hc : c.toNat < 128) :
    b.toNat = c.toNat ∧ (decodeFirst b rest).2 = rest := by
  by_cases hb : b < 0x80
  · have hlt : b.toNat < 128 := UInt8.lt_iff_toNat_lt.1 hb
    rw [decodeFirst_of_lt hb] at h ⊢
    cases h
    exact ⟨(toNat_ofNat_of_isValidChar (.inl (by omega))).symm, rfl⟩
  · rw [decodeFirst] at h
    cases hlead : lead? b with
    | none => rw [hlead] at h; cases h
    | some l =>
        rw [hlead] at h
        obtain ⟨m, hm, rfl⟩ := Option.map_eq_some_iff.1 h
        obtain ⟨hle, hvalid⟩ := number_of_lead hlead hb hm
        rw [toNat_ofNat_of_isValidChar hvalid] at hc
        omega

theorem decodeChars_cons (b : UInt8) (rest : List UInt8) :
    decodeChars (b :: rest) =
      (decodeFirst b rest).1.getD replacement :: decodeChars (decodeFirst b rest).2 := by
  rw [decodeChars, decodeParts, List.map_cons]
  rfl

theorem exists_cons_of_decodeChars {bytes : List UInt8} {text : List Char}
    (h : decodeChars bytes = c :: text) (hc : c.toNat < 128) :
    ∃ b rest, bytes = b :: rest ∧ b.toNat = c.toNat ∧ decodeChars rest = text := by
  cases bytes with
  | nil => rw [decodeChars, decodeParts] at h; cases h
  | cons b rest =>
      rw [decodeChars_cons, List.cons.injEq] at h
      obtain ⟨hfirst, htext⟩ := h
      cases hb : (decodeFirst b rest).1 with
      | none =>
          rw [hb] at hfirst
          rw [← hfirst] at hc
          exact absurd hc (by decide)
      | some c' =>
          rw [hb, Option.getD_some] at hfirst
          rw [hfirst] at hb
          obtain ⟨hbyte, hrest⟩ := decodeFirst_of_ascii hb hc
          rw [hrest] at htext
          exact ⟨b, rest, rfl, hbyte, htext⟩

theorem continuation_suffix (n : Nat) (low high : UInt8) (bits : Nat) (rest : List UInt8) :
    (continuation n low high bits rest).2 <:+ rest := by
  fun_induction continuation n low high bits rest with
  | case1 => exact List.suffix_refl _
  | case2 => exact List.suffix_refl _
  | case3 n low high bits b rest h ih => exact ih.trans (List.suffix_cons b rest)
  | case4 => exact List.suffix_refl _

theorem decodeFirst_suffix (b : UInt8) (rest : List UInt8) : (decodeFirst b rest).2 <:+ rest := by
  rw [decodeFirst]
  cases lead? b with
  | none => exact List.suffix_refl _
  | some l => exact continuation_suffix ..

/-- What is read last comes from the last bytes. -/
theorem exists_append_of_decodeChars {bytes : List UInt8} {front text : List Char}
    (h : decodeChars bytes = front ++ text) :
    ∃ before after, bytes = before ++ after ∧ decodeChars after = text := by
  induction bytes using decodeParts.induct generalizing front with
  | case1 =>
      rw [decodeChars, decodeParts, List.map_nil, List.nil_eq, List.append_eq_nil_iff] at h
      exact ⟨[], [], rfl, by rw [decodeChars, decodeParts, h.2, List.map_nil]⟩
  | case2 b rest ih =>
      cases front with
      | nil => exact ⟨[], b :: rest, rfl, h⟩
      | cons c front =>
          rw [decodeChars_cons, List.cons_append, List.cons.injEq] at h
          obtain ⟨before, after, hbytes, hafter⟩ := ih h.2
          obtain ⟨consumed, hconsumed⟩ := decodeFirst_suffix b rest
          refine ⟨b :: (consumed ++ before), after, ?_, hafter⟩
          rw [List.cons_append, List.append_assoc, ← hbytes, hconsumed]

theorem exists_mem_of_mem_decodeChars {bytes : List UInt8} (h : c ∈ decodeChars bytes)
    (hc : c.toNat < 128) : ∃ b ∈ bytes, b.toNat = c.toNat := by
  obtain ⟨front, text, htext⟩ := List.append_of_mem h
  obtain ⟨before, after, rfl, hafter⟩ := exists_append_of_decodeChars htext
  obtain ⟨b, rest, rfl, hb, -⟩ := exists_cons_of_decodeChars hafter hc
  exact ⟨b, by simp, hb⟩

/-- Characters below 80 that stand side by side come from bytes that do. -/
theorem exists_run_of_decodeChars {bytes : List UInt8} {run text : List Char}
    (h : decodeChars bytes = run ++ text) (hrun : ∀ c ∈ run, c.toNat < 128) :
    ∃ bs rest, bytes = bs ++ rest ∧ bs.map UInt8.toNat = run.map Char.toNat := by
  induction run generalizing bytes with
  | nil => exact ⟨[], bytes, rfl, rfl⟩
  | cons c run ih =>
      obtain ⟨hc, hmore⟩ := List.forall_mem_cons.1 hrun
      obtain ⟨b, rest, rfl, hb, hrest⟩ := exists_cons_of_decodeChars h hc
      obtain ⟨bs, rest', rfl, hbs⟩ := ih hrest hmore
      exact ⟨b :: bs, rest', rfl, by rw [List.map_cons, List.map_cons, hb, hbs]⟩

/-! ## What is invalid -/

theorem decodeStrict?_eq_none_iff {bytes : List UInt8} :
    decodeStrict? bytes = none ↔ none ∈ decodeParts bytes := by
  rw [decodeStrict?, Option.map_eq_none_iff]
  induction decodeParts bytes with
  | nil => simp
  | cons part parts ih =>
      rw [List.mapM_cons, List.mem_cons, ← ih]
      cases part with
      | none => simp
      | some c => cases parts.mapM id <;> simp

/-- Something is put in the place of what is invalid. -/
theorem replacement_mem_decodeChars {bytes : List UInt8} (h : decodeStrict? bytes = none) :
    replacement ∈ decodeChars bytes :=
  List.mem_map.2 ⟨none, decodeStrict?_eq_none_iff.1 h, rfl⟩

end Abacus.Text
