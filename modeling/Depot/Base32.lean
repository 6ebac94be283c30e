import Depot.Bytes

/-!
# Base32

The alphabet `a`–`z`, `2`–`7` of RFC 4648, in lower case and without padding. Every five bits of a byte
string make a symbol, the missing bits of a last one zero. `encode` writes; `decode?` reads the same form and
refuses every other.
-/

namespace Depot.Base32

def alphabet : List Char := "abcdefghijklmnopqrstuvwxyz234567".toList

def symbol (v : Nat) : Char := alphabet.getD (v % 32) 'a'

def value? (c : Char) : Option Nat := alphabet.findIdx? (· == c)

/-- The state of writing. The `count` low bits of the buffer were read and are not written yet; what is above
them is written, and leaves the buffer at its upper end. -/
structure Accumulator where
  buffer : UInt16 := 0
  count : Nat := 0
  out : String := ""
  deriving DecidableEq, Repr

namespace Accumulator

/-- Read a byte. -/
def read (a : Accumulator) (b : UInt8) : Accumulator :=
  { a with buffer := a.buffer <<< 8 ||| b.toUInt16, count := a.count + 8 }

/-- Write the symbol of the five lowest bits of a number. -/
def put (a : Accumulator) (v : UInt16) : String := a.out.push (symbol (v &&& 0x1F).toNat)

/-- Write the first five bits that wait. -/
def emit (a : Accumulator) : Accumulator :=
  { a with count := a.count - 5, out := a.put (a.buffer >>> UInt16.ofNat (a.count - 5)) }

/-- Write while five bits wait. -/
def drain (a : Accumulator) : Accumulator :=
  loop a.count a
where
  loop : Nat → Accumulator → Accumulator
    | count + 5, a => loop count a.emit
    | _, a => a

/-- The text when all is read: zeros complete the bits that are left. -/
def finish (a : Accumulator) : String :=
  if 0 < a.count then a.put (a.buffer <<< UInt16.ofNat (5 - a.count)) else a.out

end Accumulator

def encode (data : Bytes) : String :=
  (data.foldl (fun a b => (a.read b).drain) ({} : Accumulator)).finish

/-- The bytes of a list of five-bit values; a group of a length that no byte string has, or one
whose unused bits are not zero, is refused. -/
def ofQuintets? : List Nat → Option Bytes
  | a :: b :: c :: d :: e :: f :: g :: h :: rest =>
    let n := ((((((a * 32 + b) * 32 + c) * 32 + d) * 32 + e) * 32 + f) * 32 + g) * 32 + h
    (ofQuintets? rest).map fun tail => (Bytes.ofNat 5 n).reverse ++ tail
  | [a, b, c, d, e, f, g] =>
    let n := (((((a * 32 + b) * 32 + c) * 32 + d) * 32 + e) * 32 + f) * 32 + g
    if n % 8 = 0 then some (Bytes.ofNat 4 (n / 8)).reverse else none
  | [a, b, c, d, e] =>
    let n := (((a * 32 + b) * 32 + c) * 32 + d) * 32 + e
    if n % 2 = 0 then some (Bytes.ofNat 3 (n / 2)).reverse else none
  | [a, b, c, d] =>
    let n := ((a * 32 + b) * 32 + c) * 32 + d
    if n % 16 = 0 then some (Bytes.ofNat 2 (n / 16)).reverse else none
  | [a, b] =>
    let n := a * 32 + b
    if n % 4 = 0 then some (Bytes.ofNat 1 (n / 4)).reverse else none
  | [] => some []
  | _ => none

/-- The bytes that a text stands for, if it is the text of a byte string. -/
def decode? (s : String) : Option Bytes := do
  ofQuintets? (← s.toList.mapM value?)

/-- An operation id has the shape of sixteen encoded bytes: twenty-six symbols. -/
def isOperationId (s : String) : Bool :=
  s.toList.length == 26 && s.toList.all fun c => (value? c).isSome

end Depot.Base32
