import Depot.Bytes

/-!
# SHA-256

The digest of FIPS 180-4, computed byte by byte: a state takes one byte at a time, so the digest of
a payload does not depend on how the payload was cut (`absorb_append`).
-/

namespace Depot

/-- The round constants: the first thirty-two bits of the fractional parts of the cube roots of
the first sixty-four primes. -/
def Sha256.roundConstants : Array UInt32 := #[
  0x428a2f98, 0x71374491, 0xb5c0fbcf, 0xe9b5dba5, 0x3956c25b, 0x59f111f1, 0x923f82a4, 0xab1c5ed5,
  0xd807aa98, 0x12835b01, 0x243185be, 0x550c7dc3, 0x72be5d74, 0x80deb1fe, 0x9bdc06a7, 0xc19bf174,
  0xe49b69c1, 0xefbe4786, 0x0fc19dc6, 0x240ca1cc, 0x2de92c6f, 0x4a7484aa, 0x5cb0a9dc, 0x76f988da,
  0x983e5152, 0xa831c66d, 0xb00327c8, 0xbf597fc7, 0xc6e00bf3, 0xd5a79147, 0x06ca6351, 0x14292967,
  0x27b70a85, 0x2e1b2138, 0x4d2c6dfc, 0x53380d13, 0x650a7354, 0x766a0abb, 0x81c2c92e, 0x92722c85,
  0xa2bfe8a1, 0xa81a664b, 0xc24b8b70, 0xc76c51a3, 0xd192e819, 0xd6990624, 0xf40e3585, 0x106aa070,
  0x19a4c116, 0x1e376c08, 0x2748774c, 0x34b0bcb5, 0x391c0cb3, 0x4ed8aa4a, 0x5b9cca4f, 0x682e6ff3,
  0x748f82ee, 0x78a5636f, 0x84c87814, 0x8cc70208, 0x90befffa, 0xa4506ceb, 0xbef9a3f7, 0xc67178f2]

/-- The eight chaining words. -/
structure Sha256.Words where
  a : UInt32
  b : UInt32
  c : UInt32
  d : UInt32
  e : UInt32
  f : UInt32
  g : UInt32
  h : UInt32

/-- A digest under way: the chaining words, the bytes of the block not yet full, and the number
of bytes taken so far. -/
structure Sha256 where
  words : Sha256.Words
  block : ByteArray
  count : Nat

namespace Sha256

def rotate (x : UInt32) (n : UInt32) : UInt32 := (x >>> n) ||| (x <<< (32 - n))

def Words.start : Words :=
  ⟨0x6a09e667, 0xbb67ae85, 0x3c6ef372, 0xa54ff53a, 0x510e527f, 0x9b05688c, 0x1f83d9ab, 0x5be0cd19⟩

/-- The big-endian word at index `i` of a block. -/
def wordAt (block : ByteArray) (i : Nat) : UInt32 :=
  ((block.get! (4 * i)).toUInt32 <<< 24) ||| ((block.get! (4 * i + 1)).toUInt32 <<< 16) |||
    ((block.get! (4 * i + 2)).toUInt32 <<< 8) ||| (block.get! (4 * i + 3)).toUInt32

def extend (w : Array UInt32) : Array UInt32 :=
  let n := w.size
  let x := w.getD (n - 15) 0
  let y := w.getD (n - 2) 0
  let s0 := rotate x 7 ^^^ rotate x 18 ^^^ (x >>> 3)
  let s1 := rotate y 17 ^^^ rotate y 19 ^^^ (y >>> 10)
  w.push (w.getD (n - 16) 0 + s0 + w.getD (n - 7) 0 + s1)

def schedule (block : ByteArray) : Array UInt32 :=
  Nat.fold 48 (fun _ _ w => extend w)
    (Nat.fold 16 (fun i _ w => w.push (wordAt block i)) (Array.mkEmpty 64))

def Words.round (s : Words) (k w : UInt32) : Words :=
  let s1 := rotate s.e 6 ^^^ rotate s.e 11 ^^^ rotate s.e 25
  let ch := (s.e &&& s.f) ^^^ ((~~~ s.e) &&& s.g)
  let t1 := s.h + s1 + ch + k + w
  let s0 := rotate s.a 2 ^^^ rotate s.a 13 ^^^ rotate s.a 22
  let maj := (s.a &&& s.b) ^^^ (s.a &&& s.c) ^^^ (s.b &&& s.c)
  ⟨t1 + (s0 + maj), s.a, s.b, s.c, s.d + t1, s.e, s.f, s.g⟩

def Words.compress (s : Words) (block : ByteArray) : Words :=
  let w := schedule block
  let t := Nat.fold 64 (fun i _ t => Words.round t (roundConstants.getD i 0) (w.getD i 0)) s
  ⟨s.a + t.a, s.b + t.b, s.c + t.c, s.d + t.d, s.e + t.e, s.f + t.f, s.g + t.g, s.h + t.h⟩

def wordBytes (w : UInt32) : Bytes :=
  [(w >>> 24).toUInt8, (w >>> 16).toUInt8, (w >>> 8).toUInt8, w.toUInt8]

def Words.bytes (s : Words) : Bytes :=
  [s.a, s.b, s.c, s.d, s.e, s.f, s.g, s.h].flatMap wordBytes

def start : Sha256 := ⟨Words.start, ByteArray.empty, 0⟩

/-- Take one byte; a full block is compressed at once. -/
def push (s : Sha256) (b : UInt8) : Sha256 :=
  let block := s.block.push b
  if block.size = 64 then ⟨s.words.compress block, ByteArray.empty, s.count + 1⟩
  else ⟨s.words, block, s.count + 1⟩

def absorb (s : Sha256) (data : Bytes) : Sha256 := data.foldl push s

@[simp] theorem absorb_nil (s : Sha256) : s.absorb [] = s := rfl

theorem absorb_append (s : Sha256) (a b : Bytes) : s.absorb (a ++ b) = (s.absorb a).absorb b :=
  List.foldl_append

/-- The padding of a message of `count` bytes: a one bit, zeros, and the length in bits. -/
def padding (count : Nat) : Bytes :=
  0x80 :: List.replicate ((119 - count % 64) % 64) 0 ++ (Bytes.ofNat 8 (8 * count)).reverse

def finish (s : Sha256) : Bytes := (s.absorb (padding s.count)).words.bytes

def digest (data : Bytes) : Bytes := (start.absorb data).finish

end Sha256

end Depot
