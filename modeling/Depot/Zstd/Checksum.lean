import Depot.Bytes

/-!
# The content checksum of a frame

XXH64 with seed zero: four lanes over stripes of thirty-two bytes, then the tail in words of
eight, four and one bytes, then a final mix. A frame carries the low four bytes.
-/

namespace Depot.Zstd.Checksum

def prime1 : UInt64 := 0x9E3779B185EBCA87
def prime2 : UInt64 := 0xC2B2AE3D27D4EB4F
def prime3 : UInt64 := 0x165667B19E3779F9
def prime4 : UInt64 := 0x85EBCA77C2B2AE63
def prime5 : UInt64 := 0x27D4EB2F165667C5

def rotate (x n : UInt64) : UInt64 := (x <<< n) ||| (x >>> (64 - n))

def byteAt (b : ByteArray) (i : Nat) : UInt64 :=
  if h : i < b.size then (b[i]).toUInt64 else 0

/-- The little-endian word of `width` bytes at `i`. -/
def wordAt (b : ByteArray) (width i : Nat) : UInt64 :=
  match width with
  | 0 => 0
  | width + 1 => byteAt b i ||| (wordAt b width (i + 1) <<< 8)

def lane (acc input : UInt64) : UInt64 := rotate (acc + input * prime2) 31 * prime1

def merge (hash acc : UInt64) : UInt64 := (hash ^^^ lane 0 acc) * prime1 + prime4

structure Lanes where
  v1 : UInt64
  v2 : UInt64
  v3 : UInt64
  v4 : UInt64

/-- Take the stripe of thirty-two bytes at `i`. -/
def Lanes.stripe (b : ByteArray) (i : Nat) (l : Lanes) : Lanes :=
  ⟨lane l.v1 (wordAt b 8 i), lane l.v2 (wordAt b 8 (i + 8)), lane l.v3 (wordAt b 8 (i + 16)),
    lane l.v4 (wordAt b 8 (i + 24))⟩

def Lanes.hash (l : Lanes) : UInt64 :=
  merge (merge (merge (merge
    (rotate l.v1 1 + rotate l.v2 7 + rotate l.v3 12 + rotate l.v4 18) l.v1) l.v2) l.v3) l.v4

/-- Take a word of eight bytes of the tail. -/
def tail8 (b : ByteArray) (i : Nat) (h : UInt64) : UInt64 :=
  rotate (h ^^^ lane 0 (wordAt b 8 i)) 27 * prime1 + prime4

def tail4 (b : ByteArray) (i : Nat) (h : UInt64) : UInt64 :=
  rotate (h ^^^ (wordAt b 4 i * prime1)) 23 * prime2 + prime3

def tail1 (b : ByteArray) (i : Nat) (h : UInt64) : UInt64 :=
  rotate (h ^^^ (byteAt b i * prime5)) 11 * prime1

def avalanche (h : UInt64) : UInt64 :=
  let h := (h ^^^ (h >>> 33)) * prime2
  let h := (h ^^^ (h >>> 29)) * prime3
  h ^^^ (h >>> 32)

def hash (b : ByteArray) : UInt64 :=
  let n := b.size
  let start : UInt64 :=
    if n < 32 then prime5
    else (Nat.fold (n / 32) (fun i _ l => Lanes.stripe b (32 * i) l)
      ⟨prime1 + prime2, prime2, 0, 0 - prime1⟩).hash
  let h := start + UInt64.ofNat n
  let base := 32 * (n / 32)
  let words := n % 32 / 8
  let h := Nat.fold words (fun i _ h => tail8 b (base + 8 * i) h) h
  let base := base + 8 * words
  let halves := n % 8 / 4
  let h := Nat.fold halves (fun i _ h => tail4 b (base + 4 * i) h) h
  let base := base + 4 * halves
  let h := Nat.fold (n % 4) (fun i _ h => tail1 b (base + i) h) h
  avalanche h

/-- The four bytes that a frame carries, as a number. -/
def content (b : ByteArray) : Nat := (hash b).toNat % 0x100000000

end Depot.Zstd.Checksum
