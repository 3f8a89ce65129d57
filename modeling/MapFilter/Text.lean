/-!
# Text in bytes

Bytes are cut into the encodings of characters and the ill-formed pieces between them. A piece is
as long as it can be while some character still begins with it, and at least one byte long. The text
is cut into words at blanks, the characters with the Unicode property `White_Space`.

* `Utf8.encode`, `Utf8.decode`: the pieces, each as its character or as `none`;
* `Utf8.decode?`: the text of well-formed bytes;
* `Utf8.decodeLossy`: the text with U+FFFD for each ill-formed piece;
* `isBlank`, `firstWord`: the first run of other characters in a text.
-/

namespace MapFilter

/-! ## Bytes -/

namespace Utf8

/-- The bytes of a text. -/
def encode (s : List Char) : List UInt8 := s.flatMap String.utf8EncodeChar

/-- What the first byte of a character announces. -/
structure Lead where
  /-- How many bytes follow. -/
  tails : Nat
  /-- The least byte that may follow at once. -/
  low : UInt8 := 0x80
  /-- The greatest byte that may follow at once. -/
  high : UInt8 := 0xbf
  /-- The bits that the first byte adds to the character. -/
  bits : Nat

/-- What a byte announces as the first one of a character, if it may be that. The bounds on the
next byte leave out the surrogates, everything beyond U+10FFFF and every encoding that is longer
than it need be. -/
def lead? (b : UInt8) : Option Lead :=
  if b < 0x80 then some ⟨0, 0x80, 0xbf, b.toNat⟩
  else if b < 0xc2 then none
  else if b < 0xe0 then some ⟨1, 0x80, 0xbf, b.toNat - 0xc0⟩
  else if b = 0xe0 then some ⟨2, 0xa0, 0xbf, 0⟩
  else if b = 0xed then some ⟨2, 0x80, 0x9f, 0xd⟩
  else if b < 0xf0 then some ⟨2, 0x80, 0xbf, b.toNat - 0xe0⟩
  else if b = 0xf0 then some ⟨3, 0x90, 0xbf, 0⟩
  else if b < 0xf4 then some ⟨3, 0x80, 0xbf, b.toNat - 0xf0⟩
  else if b = 0xf4 then some ⟨3, 0x80, 0x8f, 4⟩
  else none

/-- Takes up to `n` bytes that continue a character of which `bits` is known, the next one within
the bounds; gives the character if all are there, and the bytes that are left. -/
def tails : Nat → UInt8 → UInt8 → Nat → List UInt8 → Option Char × List UInt8
  | 0, _, _, bits, s => (some (Char.ofNat bits), s)
  | _ + 1, _, _, _, [] => (none, [])
  | n + 1, low, high, bits, b :: s =>
    if low ≤ b ∧ b ≤ high then tails n 0x80 0xbf (bits * 64 + (b.toNat - 0x80)) s
    else (none, b :: s)

/-- The piece that begins with the byte `b`, and the bytes that are left. -/
def piece (b : UInt8) (s : List UInt8) : Option Char × List UInt8 :=
  match lead? b with
  | none => (none, s)
  | some l => tails l.tails l.low l.high l.bits s

theorem length_tails_le (n : Nat) (low high : UInt8) (bits : Nat) (s : List UInt8) :
    (tails n low high bits s).2.length ≤ s.length := by
  fun_induction tails n low high bits s with
  | case1 | case2 | case4 => exact Nat.le_refl _
  | case3 n low high bits b s h ih => exact Nat.le_succ_of_le ih

theorem length_piece_le (b : UInt8) (s : List UInt8) : (piece b s).2.length ≤ s.length := by
  unfold piece
  split
  · exact Nat.le_refl _
  · exact length_tails_le _ _ _ _ _

/-- The pieces of a sequence of bytes, in order. -/
def decode : List UInt8 → List (Option Char)
  | [] => []
  | b :: s => (piece b s).1 :: decode (piece b s).2
termination_by s => s.length
decreasing_by exact Nat.lt_succ_of_le (length_piece_le b s)

/-- The text of a sequence of bytes, if it is well-formed. -/
def decode? (s : List UInt8) : Option (List Char) := (decode s).mapM id

/-- The text of a sequence of bytes, with U+FFFD in the place of each ill-formed piece. -/
def decodeLossy (s : List UInt8) : List Char := (decode s).map (·.getD '\ufffd')

end Utf8

/-! ## Words -/

/-- Whether the character has the property `White_Space`. -/
def isBlank (c : Char) : Bool :=
  let n := c.toNat
  (0x09 ≤ n ∧ n ≤ 0x0d) || n == 0x20 || n == 0x85 || n == 0xa0 || n == 0x1680 ||
    (0x2000 ≤ n ∧ n ≤ 0x200a) || n == 0x2028 || n == 0x2029 || n == 0x202f || n == 0x205f ||
    n == 0x3000

/-- The first run of characters that are no blanks; empty when there is none. -/
def firstWord (s : List Char) : List Char :=
  (s.dropWhile isBlank).takeWhile fun c => !isBlank c

end MapFilter
