import Depot.Zstd.Fault

/-!
# Bit streams

Bits of a block of bytes, addressed from its first byte, least significant bit first. A forward
reader takes fields upward from an address; a backward reader starts below the highest set bit of
the last byte and takes fields downward. Bits outside the block count as zero.
-/

namespace Depot.Zstd

/-- The byte at `i`, zero beyond the end. -/
def byteAt (b : ByteArray) (i : Nat) : Nat :=
  if h : i < b.size then (b[i]).toNat else 0

/-- The little-endian number of `width` bytes at `i`. -/
def numberAt (b : ByteArray) (width i : Nat) : Nat :=
  match width with
  | 0 => 0
  | width + 1 => byteAt b i + 256 * numberAt b width (i + 1)

/-- The number in the `width` bits from address `at` upward. -/
def bitsAt (b : ByteArray) (at' width : Nat) : Nat :=
  (numberAt b ((at' % 8 + width + 7) / 8) (at' / 8) >>> (at' % 8)) % 1 <<< width

/-- A stream that is read downward: `left` bits of `data` from address `base` are unread, or, when
`left` is negative, that many more than there were have been taken. -/
structure BackwardBits where
  data : ByteArray
  base : Nat
  left : Int

namespace BackwardBits

/-- The stream in `size` bytes from byte `start`; the highest set bit of the last byte marks where
it begins. -/
def open? (data : ByteArray) (start size : Nat) : Except Fault BackwardBits :=
  let last := byteAt data (start + size - 1)
  if size = 0 ∨ last = 0 then .error .corrupted
  else .ok ⟨data, 8 * start, 8 * (size - 1) + Nat.log2 last⟩

/-- The next `width` bits, missing ones zero, without taking them. -/
def peek (s : BackwardBits) (width : Nat) : Nat :=
  if s.left ≤ 0 then 0
  else
    let have' := min s.left.toNat width
    bitsAt s.data (s.base + s.left.toNat - have') have' <<< (width - have')

def skip (s : BackwardBits) (width : Nat) : BackwardBits := { s with left := s.left - width }

def take (s : BackwardBits) (width : Nat) : Nat × BackwardBits := (s.peek width, s.skip width)

end BackwardBits

end Depot.Zstd
