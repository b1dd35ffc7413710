import Mathlib.Data.List.Chain
import Abacus.Proofs.Decoding
import Abacus.Proofs.LineBreaks

/-!
# Lines of bytes

Bytes are cut into lines as a text is, but each line is kept with the break that ended it, so that
the bytes can be put together again. A list of lines comes out of some bytes just if it is
`Separate`: no line has a break inside, only the last may have no end, and a carriage return does
not run into a line feed that ends an empty line.

A line can be cut off before it is decoded or after. The bytes of a break stand for themselves, even
behind the first bytes of a longer character, and no other bytes are read as a break.
-/

namespace Abacus.Text

/-- What ends a line: a line feed, a carriage return, or the pair of the two. -/
inductive LineEnd where
  | feed
  | carriage
  | pair
deriving DecidableEq

/-- The bytes at the end of a line; the last one may have none. -/
def LineEnd.bytes : Option LineEnd → List UInt8
  | none => []
  | some .feed => [0x0A]
  | some .carriage => [0x0D]
  | some .pair => [0x0D, 0x0A]

/-- A line without its end, and its end. -/
abbrev ByteLine := List UInt8 × Option LineEnd

/-- The lines of some bytes. -/
def byteLines : List UInt8 → List ByteLine
  | [] => []
  | 0x0D :: 0x0A :: rest => ([], some .pair) :: byteLines rest
  | 0x0D :: rest => ([], some .carriage) :: byteLines rest
  | 0x0A :: rest => ([], some .feed) :: byteLines rest
  | b :: rest =>
    match byteLines rest with
    | [] => [([b], none)]
    | (line, ending) :: more => (b :: line, ending) :: more

/-- The bytes of some lines. -/
def joinLines (lines : List ByteLine) : List UInt8 :=
  lines.flatMap fun p => p.1 ++ LineEnd.bytes p.2

/-- There is no break among the bytes. -/
def Unbroken (bytes : List UInt8) : Prop :=
  ∀ b ∈ bytes, b ≠ 0x0A ∧ b ≠ 0x0D

instance (bytes : List UInt8) : Decidable (Unbroken bytes) :=
  List.decidableBAll _ _

/-- If the line ends with a carriage return, that does not run into a line feed. -/
def Apart (p q : ByteLine) : Prop :=
  p.2 = some .carriage → q ≠ ([], some .feed)

instance (p q : ByteLine) : Decidable (Apart p q) :=
  inferInstanceAs (Decidable (_ → _))

/-- The line ends before the other one begins. -/
def Parted (p q : ByteLine) : Prop :=
  p.2 ≠ none ∧ Apart p q

/-- Put together, these are still the lines. -/
structure Separate (lines : List ByteLine) : Prop where
  unbroken : ∀ p ∈ lines, Unbroken p.1
  present : ∀ p ∈ lines, p.2 = none → p.1 ≠ []
  parted : lines.IsChain Parted

variable {bytes line rest : List UInt8} {b : UInt8} {ending : Option LineEnd} {p q : ByteLine}
  {lines more : List ByteLine}

/-! ## Cutting and putting together -/

theorem joinLines_cons (p : ByteLine) (lines : List ByteLine) :
    joinLines (p :: lines) = p.1 ++ (LineEnd.bytes p.2 ++ joinLines lines) := by
  rw [joinLines, List.flatMap_cons, List.append_assoc]
  rfl

theorem joinLines_byteLines (bytes : List UInt8) : joinLines (byteLines bytes) = bytes := by
  fun_induction byteLines bytes with
  | case1 => rfl
  | case2 rest ih | case3 rest _ ih | case4 rest ih => rw [joinLines_cons, ih]; rfl
  | case5 b rest _ _ _ h ih =>
      rw [h] at ih
      rw [← ih]
      rfl
  | case6 b rest _ _ _ line ending more h ih =>
      rw [h, joinLines_cons] at ih
      rw [joinLines_cons, List.cons_append, ih]

theorem separate_cons :
    Separate (p :: lines) ↔ Unbroken p.1 ∧ (p.2 = none → p.1 ≠ []) ∧
      (∀ q ∈ lines.head?, Parted p q) ∧ Separate lines := by
  constructor
  · rintro ⟨hunbroken, hpresent, hparted⟩
    rw [List.forall_mem_cons] at hunbroken hpresent
    rw [List.isChain_cons] at hparted
    exact ⟨hunbroken.1, hpresent.1, hparted.1, hunbroken.2, hpresent.2, hparted.2⟩
  · rintro ⟨hunbroken, hpresent, hparted, hlines⟩
    exact ⟨List.forall_mem_cons.2 ⟨hunbroken, hlines.unbroken⟩,
      List.forall_mem_cons.2 ⟨hpresent, hlines.present⟩,
      List.isChain_cons.2 ⟨hparted, hlines.parted⟩⟩

theorem unbroken_nil : Unbroken [] := by
  intro b hb
  cases hb

theorem unbroken_cons : Unbroken (b :: line) ↔ (b ≠ 0x0A ∧ b ≠ 0x0D) ∧ Unbroken line :=
  List.forall_mem_cons

theorem separate_byteLines (bytes : List UInt8) : Separate (byteLines bytes) := by
  fun_induction byteLines bytes with
  | case1 => exact ⟨by simp, by simp, .nil⟩
  | case2 rest ih | case4 rest ih =>
      exact separate_cons.2 ⟨unbroken_nil, by simp, fun q _ => ⟨by simp, nofun⟩, ih⟩
  | case3 rest hn ih =>
      refine separate_cons.2 ⟨unbroken_nil, by simp, fun q hq => ⟨by simp, fun _ hfeed => ?_⟩, ih⟩
      -- An empty line with a line feed would mean that a line feed comes next.
      obtain ⟨more, hmore⟩ := List.head?_eq_some_iff.1 hq
      have hrest := joinLines_byteLines rest
      rw [hmore, hfeed, joinLines_cons] at hrest
      exact hn _ hrest.symm
  | case5 b rest _ hreturn hfeed h ih =>
      exact separate_cons.2 ⟨unbroken_cons.2 ⟨⟨hfeed, hreturn⟩, unbroken_nil⟩, by simp, by simp,
        ⟨by simp, by simp, .nil⟩⟩
  | case6 b rest _ hreturn hfeed line ending more h ih =>
      rw [h, separate_cons] at ih
      obtain ⟨hline, -, hparted, hmore⟩ := ih
      exact separate_cons.2 ⟨unbroken_cons.2 ⟨⟨hfeed, hreturn⟩, hline⟩, by simp, fun q hq =>
        ⟨(hparted q hq).1, (hparted q hq).2⟩, hmore⟩

theorem byteLines_append (hline : Unbroken line) {first : List UInt8}
    (h : byteLines bytes = (first, ending) :: more) :
    byteLines (line ++ bytes) = (line ++ first, ending) :: more := by
  induction line with
  | nil => exact h
  | cons b line ih =>
      obtain ⟨⟨hfeed, hreturn⟩, hmore⟩ := unbroken_cons.1 hline
      rw [List.cons_append, byteLines]
      · rw [ih hmore]
        rfl
      · exact fun _ hb _ => hreturn hb
      · exact hreturn
      · exact hfeed

theorem byteLines_unbroken (hline : Unbroken line) (hne : line ≠ []) :
    byteLines line = [(line, none)] := by
  obtain ⟨front, b, rfl⟩ := (List.eq_nil_or_concat line).resolve_left hne
  rw [List.concat_eq_append] at hline ⊢
  obtain ⟨hfeed, hreturn⟩ := hline b (by simp)
  have hlast : byteLines [b] = [([b], none)] := by
    rw [byteLines]
    · rfl
    · exact fun _ hb _ => hreturn hb
    · exact hreturn
    · exact hfeed
  exact byteLines_append (fun b' hb' => hline b' (by simp [hb'])) hlast

/-- What separate lines are put together to begins with a line feed only if that is a line. -/
theorem head_joinLines (h : Separate lines) (hhead : (joinLines lines).head? = some 0x0A) :
    ∃ more, lines = ([], some .feed) :: more := by
  cases lines with
  | nil => cases hhead
  | cons p lines =>
      obtain ⟨line, ending⟩ := p
      obtain ⟨hline, hpresent, -, -⟩ := separate_cons.1 h
      rw [joinLines_cons] at hhead
      cases line with
      | cons b line =>
          cases hhead
          exact absurd rfl (unbroken_cons.1 hline).1.1
      | nil =>
          cases ending with
          | none => exact absurd rfl (hpresent rfl)
          | some e =>
              cases e with
              | feed => exact ⟨lines, rfl⟩
              | carriage => cases hhead
              | pair => cases hhead

theorem head_of_carriage (h : Separate ((line, some .carriage) :: lines)) :
    (joinLines lines).head? ≠ some 0x0A := by
  intro hhead
  obtain ⟨-, -, hparted, hmore⟩ := separate_cons.1 h
  obtain ⟨more, rfl⟩ := head_joinLines hmore hhead
  exact (hparted _ rfl).2 rfl rfl

/-- Separate lines are found again. -/
theorem byteLines_joinLines (h : Separate lines) : byteLines (joinLines lines) = lines := by
  induction lines with
  | nil => rfl
  | cons p lines ih =>
      obtain ⟨line, ending⟩ := p
      obtain ⟨hline, hpresent, hparted, hmore⟩ := separate_cons.1 h
      have ih := ih hmore
      rw [joinLines_cons]
      cases ending with
      | none =>
          -- A line without an end is the last one.
          cases lines with
          | nil => rw [joinLines, List.flatMap_nil, LineEnd.bytes, List.append_nil, List.append_nil,
              byteLines_unbroken hline (hpresent rfl)]
          | cons q lines => exact absurd rfl (hparted q rfl).1
      | some e =>
          have hcut : byteLines (LineEnd.bytes (some e) ++ joinLines lines) =
              ([], some e) :: lines := by
            cases e with
            | feed | pair => exact congrArg _ ih
            | carriage =>
                have hhead := head_of_carriage h
                show byteLines (0x0D :: joinLines lines) = _
                rw [byteLines, ih]
                rintro rest hrest
                exact hhead (by rw [hrest]; rfl)
          have hall := byteLines_append hline hcut
          rwa [List.append_nil] at hall

/-- Lines that end before the next one begins are separate, but for an empty rest behind them. -/
theorem separate_or_concat (hunbroken : ∀ p ∈ lines, Unbroken p.1)
    (hparted : lines.IsChain Parted) :
    Separate lines ∨ ∃ front, Separate front ∧ lines = front ++ [([], none)] := by
  induction lines with
  | nil => exact .inl ⟨by simp, by simp, .nil⟩
  | cons p lines ih =>
      obtain ⟨hline, hmore⟩ := List.forall_mem_cons.1 hunbroken
      obtain ⟨hhead, htail⟩ := List.isChain_cons.1 hparted
      rcases ih hmore htail with hlines | ⟨front, hfront, rfl⟩
      · by_cases hp : p = ([], none)
        · -- What has no end can only be the last one.
          cases lines with
          | nil => exact .inr ⟨[], hlines, by rw [hp]; rfl⟩
          | cons q more => exact absurd (by rw [hp]) (hhead q rfl).1
        · exact .inl (separate_cons.2 ⟨hline, fun hnone hnil => hp (Prod.ext hnil hnone), hhead,
            hlines⟩)
      · refine .inr ⟨p :: front, separate_cons.2 ⟨hline, fun hnone => ?_, fun q hq => ?_, hfront⟩,
          rfl⟩
        · cases front <;> exact absurd hnone (hhead _ rfl).1
        · cases front with
          | nil => cases hq
          | cons q' front => exact hhead q hq

theorem getElem?_byteLines_joinLines (hunbroken : ∀ p ∈ lines, Unbroken p.1)
    (hparted : lines.IsChain Parted) {i : Nat} (hp : lines[i]? = some p) (hne : p ≠ ([], none)) :
    (byteLines (joinLines lines))[i]? = some p := by
  rcases separate_or_concat hunbroken hparted with hlines | ⟨front, hfront, rfl⟩
  · rw [byteLines_joinLines hlines, hp]
  · have hjoin : joinLines (front ++ [([], none)]) = joinLines front := by
      rw [joinLines, List.flatMap_append]
      exact List.append_nil _
    rw [hjoin, byteLines_joinLines hfront]
    rw [List.getElem?_append] at hp
    split at hp
    · exact hp
    · exact absurd (List.mem_singleton.1 (List.mem_of_getElem? hp)) hne

/-! ## Cutting and decoding -/

theorem unbroken_decodeChars (h : Unbroken bytes) :
    ∀ c ∈ decodeChars bytes, c ≠ '\n' ∧ c ≠ '\r' := by
  intro c hc
  constructor
  · rintro rfl
    obtain ⟨b, hb, hbyte⟩ := exists_mem_of_mem_decodeChars hc (by decide)
    exact (h b hb).1 (UInt8.toNat_inj.1 hbyte)
  · rintro rfl
    obtain ⟨b, hb, hbyte⟩ := exists_mem_of_mem_decodeChars hc (by decide)
    exact (h b hb).2 (UInt8.toNat_inj.1 hbyte)

theorem decodeChars_ne_nil (h : bytes ≠ []) : decodeChars bytes ≠ [] := by
  obtain ⟨b, rest, rfl⟩ := List.exists_cons_of_ne_nil h
  rw [decodeChars_cons]
  exact List.cons_ne_nil _ _

theorem decodeChars_feed (left rest : List UInt8) :
    decodeChars (left ++ 0x0A :: rest) = decodeChars left ++ '\n' :: decodeChars rest :=
  decodeChars_append (by decide) left rest

theorem decodeChars_return (left rest : List UInt8) :
    decodeChars (left ++ 0x0D :: rest) = decodeChars left ++ '\r' :: decodeChars rest :=
  decodeChars_append (by decide) left rest

theorem toList_decodeLenient (bytes : List UInt8) :
    (decodeLenient bytes).toList = decodeChars bytes :=
  String.toList_ofList

theorem decodeLenient_feed (left rest : List UInt8) :
    decodeLenient (left ++ 0x0A :: rest) =
      decodeLenient left ++ "\n" ++ decodeLenient rest := by
  apply String.toList_injective
  simp [toList_decodeLenient, decodeChars_feed]

theorem decodeLenient_return (left rest : List UInt8) :
    decodeLenient (left ++ 0x0D :: rest) =
      decodeLenient left ++ "\r" ++ decodeLenient rest := by
  apply String.toList_injective
  simp [toList_decodeLenient, decodeChars_return]

theorem markedLines_of_carriage (h : Separate ((line, some .carriage) :: lines)) :
    markedLines ('\r' :: decodeChars (joinLines lines)) =
      ([], true) :: markedLines (decodeChars (joinLines lines)) := by
  rw [markedLines]
  intro text htext
  obtain ⟨b, rest, hjoin, hb, -⟩ := exists_cons_of_decodeChars htext (by decide)
  have hfeed : b = 0x0A := UInt8.toNat_inj.1 hb
  exact head_of_carriage h (by rw [hjoin, hfeed]; rfl)

/-- It does not matter whether lines are cut off before they are decoded or after. -/
theorem markedLines_joinLines (h : Separate lines) :
    markedLines (decodeChars (joinLines lines)) =
      lines.map fun p => (decodeChars p.1, p.2.isSome) := by
  have hnil : decodeChars [] = [] := by rw [decodeChars, decodeParts, List.map_nil]
  induction lines with
  | nil =>
      rw [joinLines, List.flatMap_nil, hnil]
      rfl
  | cons p lines ih =>
      obtain ⟨line, ending⟩ := p
      obtain ⟨hline, hpresent, hparted, hmore⟩ := separate_cons.1 h
      have hdecoded := unbroken_decodeChars hline
      have ih := ih hmore
      rw [joinLines_cons, List.map_cons, ← ih]
      cases ending with
      | none =>
          cases lines with
          | nil =>
              rw [joinLines, List.flatMap_nil, LineEnd.bytes, List.append_nil, List.append_nil,
                hnil, markedLines_unbroken hdecoded (decodeChars_ne_nil (hpresent rfl))]
              rfl
          | cons q lines => exact absurd rfl (hparted q rfl).1
      | some e =>
          have hcut : ∃ text, decodeChars (line ++ (LineEnd.bytes (some e) ++ joinLines lines)) =
              decodeChars line ++ text ∧
                markedLines text = ([], true) :: markedLines (decodeChars (joinLines lines)) := by
            cases e with
            | feed => exact ⟨_, decodeChars_feed line _, rfl⟩
            | carriage => exact ⟨_, decodeChars_return line _, markedLines_of_carriage h⟩
            | pair =>
                refine ⟨_, decodeChars_return line _, ?_⟩
                show markedLines ('\r' :: decodeChars ([] ++ 0x0A :: joinLines lines)) = _
                rw [decodeChars_feed, hnil]
                rfl
          obtain ⟨text, htext, hmarked⟩ := hcut
          rw [htext, markedLines_append hdecoded hmarked, List.append_nil]
          rfl

/-- The lines of a decoded text are the decoded lines of the bytes. -/
theorem markedLines_decodeChars (bytes : List UInt8) :
    markedLines (decodeChars bytes) =
      (byteLines bytes).map fun p => (decodeChars p.1, p.2.isSome) := by
  have h := markedLines_joinLines (separate_byteLines bytes)
  rwa [joinLines_byteLines] at h

end Abacus.Text
