/-!
# UTF-8

Bytes read as text in two ways. The strict reading gives up at the first invalid byte. The lenient
one puts the replacement character for each *maximal invalid part*: the longest run of bytes that
could still begin a character but does not, or else a single byte. Overlong forms, surrogates and
numbers beyond the last code point cannot begin a character, so that every sequence that is
accepted is the shortest one for its character.
-/

namespace Abacus.Text

/-- The character U+FFFD, shown in place of what cannot be decoded. -/
def replacement : Char := '\uFFFD'

/-- How a first byte goes on: the number of bytes that follow, the bounds of the byte next to it,
and the bits that it adds itself. -/
structure Lead where
  following : Nat
  low : UInt8
  high : UInt8
  bits : Nat

/-- What a first byte announces; nothing for a byte that begins no character. -/
def lead? (b : UInt8) : Option Lead :=
  if b < 0x80 then some ⟨0, 0x80, 0xBF, b.toNat⟩
  else if b < 0xC2 then none
  else if b < 0xE0 then some ⟨1, 0x80, 0xBF, b.toNat - 0xC0⟩
  else if b == 0xE0 then some ⟨2, 0xA0, 0xBF, 0⟩
  else if b == 0xED then some ⟨2, 0x80, 0x9F, 0xD⟩
  else if b < 0xF0 then some ⟨2, 0x80, 0xBF, b.toNat - 0xE0⟩
  else if b == 0xF0 then some ⟨3, 0x90, 0xBF, 0⟩
  else if b < 0xF4 then some ⟨3, 0x80, 0xBF, b.toNat - 0xF0⟩
  else if b == 0xF4 then some ⟨3, 0x80, 0x8F, 4⟩
  else none

/-- Reads `n` more bytes of a character whose bits so far are `bits`. The next byte lies between
`low` and `high`, those after it between 80 and BF. The number of the character is missing if the
bytes break off; what is left is handed back either way. -/
def continuation : Nat → UInt8 → UInt8 → Nat → List UInt8 → Option Nat × List UInt8
  | 0, _, _, bits, rest => (some bits, rest)
  | _ + 1, _, _, _, [] => (none, [])
  | n + 1, low, high, bits, b :: rest =>
    if low ≤ b && b ≤ high then continuation n 0x80 0xBF (bits * 0x40 + (b.toNat - 0x80)) rest
    else (none, b :: rest)

theorem length_continuation_le (n : Nat) (low high : UInt8) (bits : Nat) (bytes : List UInt8) :
    (continuation n low high bits bytes).2.length ≤ bytes.length := by
  fun_induction continuation n low high bits bytes with
  | case1 => simp
  | case2 => simp
  | case3 n low high bits b rest h ih => simp only [List.length_cons]; omega
  | case4 => simp

/-- The first character of `b :: rest`, or nothing if the bytes are invalid there, and the bytes
after the character or after the invalid part. -/
def decodeFirst (b : UInt8) (rest : List UInt8) : Option Char × List UInt8 :=
  match lead? b with
  | none => (none, rest)
  | some l =>
    let (number, rest) := continuation l.following l.low l.high l.bits rest
    (number.map Char.ofNat, rest)

theorem length_decodeFirst_le (b : UInt8) (rest : List UInt8) :
    (decodeFirst b rest).2.length ≤ rest.length := by
  unfold decodeFirst
  split
  · exact Nat.le_refl _
  · exact length_continuation_le ..

/-- The bytes cut into characters and invalid parts, in order. -/
def decodeParts : List UInt8 → List (Option Char)
  | [] => []
  | b :: rest => (decodeFirst b rest).1 :: decodeParts (decodeFirst b rest).2
termination_by bytes => bytes.length
decreasing_by
  have := length_decodeFirst_le b rest
  simp only [List.length_cons]
  omega

/-- The lenient reading: a replacement character stands for each invalid part. -/
def decodeLenient (bytes : List UInt8) : String :=
  String.ofList ((decodeParts bytes).map (Option.getD · replacement))

/-- The strict reading: there is no text if any part is invalid. -/
def decodeStrict? (bytes : List UInt8) : Option String :=
  ((decodeParts bytes).mapM id).map String.ofList

end Abacus.Text
