import Depot.Zstd.Fse

/-!
# Huffman tables

A table is described by the weights of its symbols, the last one implied; a symbol of weight `w`
has a code of `log + 1 - w` bits. Weights come either as four-bit fields or as a finite-state
stream with two states in turn.
-/

namespace Depot.Zstd.Huffman

/-- A decoding table: for every value of `log` bits the symbol and the length of its code. -/
structure Table where
  log : Nat
  cells : Array (UInt8 × Nat)

/-- The weights that two states in turn give until the stream is used up. -/
def weightsFrom (t : Fse.Table) : Nat → Nat → Nat → BackwardBits → List Nat → Except Fault (List Nat)
  | 0, _, _, _, _ => .error .corrupted
  | fuel + 1, mine, other, s, acc =>
    let e := t.entry mine
    let (bits, s) := s.take e.bits
    if s.left < 0 then .ok ((t.entry other).symbol :: e.symbol :: acc).reverse
    else weightsFrom t fuel other (e.base + bits) s (e.symbol :: acc)

/-- The weights in a finite-state stream of `size` bytes at `start`. -/
def streamedWeights (data : ByteArray) (start size : Nat) : Except Fault (List Nat) := do
  let (table, used) ← Fse.readTable data start size 256 6
  let s ← BackwardBits.open? data (start + used) (size - used)
  let (first, s) := s.take table.log
  let (second, s) := s.take table.log
  if s.left < 0 then throw .corrupted
  weightsFrom table 254 first second s []

/-- The weights in four-bit fields at `start`. -/
def plainWeights (data : ByteArray) (start count : Nat) : List Nat :=
  (List.range count).map fun i =>
    let byte := byteAt data (start + i / 2)
    if i % 2 = 0 then byte / 16 else byte % 16

def cellsOf (weight : Nat) : Nat := if weight = 0 then 0 else 1 <<< (weight - 1)

/-- The table of a list of weights without the last one. -/
def build (weights : List Nat) : Except Fault Table := do
  if weights.any (· > 12) then throw .corrupted
  let total := weights.foldl (fun n w => n + cellsOf w) 0
  if total = 0 then throw .corrupted
  let log := Nat.log2 total + 1
  if log > 12 then throw .corrupted
  let rest := 1 <<< log - total
  if 1 <<< Nat.log2 rest ≠ rest then throw .corrupted
  let weights := weights ++ [Nat.log2 rest + 1]
  let ones := weights.count 1
  if ones < 2 ∨ ones % 2 = 1 ∨ weights.length > 256 then throw .corrupted
  let cells := (List.range log).foldl (fun (cells : Array (UInt8 × Nat)) k =>
    let w := k + 1
    weights.zipIdx.foldl (fun (cells : Array (UInt8 × Nat)) p =>
      if p.1 = w then
        Nat.fold (1 <<< k) (fun _ _ (cells : Array (UInt8 × Nat)) =>
          cells.push (UInt8.ofNat p.2, log + 1 - w)) cells
      else cells) cells) (Array.mkEmpty (1 <<< log))
  return ⟨log, cells⟩

/-- Read a table from `size` bytes at `start`: the table, and the number of bytes it took. -/
def readTable (data : ByteArray) (start size : Nat) : Except Fault (Table × Nat) := do
  if size = 0 then throw .corrupted
  let head := byteAt data start
  if head ≥ 128 then
    let count := head - 127
    let used := (count + 1) / 2
    if used + 1 > size then throw .corrupted
    return (← build (plainWeights data (start + 1) count), used + 1)
  else
    if head + 1 > size then throw .corrupted
    return (← build (← streamedWeights data (start + 1) head), head + 1)

def decodeSymbols (t : Table) : Nat → BackwardBits → ByteArray → ByteArray × BackwardBits
  | 0, s, out => (out, s)
  | count + 1, s, out =>
    let (symbol, width) := t.cells.getD (s.peek t.log) (0, 0)
    decodeSymbols t count (s.skip width) (out.push symbol)

/-- Decode one stream of `size` bytes at `start` into `count` symbols; it must be used up
exactly. -/
def decodeStream (t : Table) (data : ByteArray) (start size count : Nat) (out : ByteArray) :
    Except Fault ByteArray := do
  let s ← BackwardBits.open? data start size
  let (out, s) := decodeSymbols t count s out
  if s.left ≠ 0 then throw .corrupted
  return out

/-- Decode four streams with a table of their sizes in front. -/
def decodeFour (t : Table) (data : ByteArray) (start size count : Nat) : Except Fault ByteArray := do
  if size < 10 then throw .corrupted
  let n1 := numberAt data 2 start
  let n2 := numberAt data 2 (start + 2)
  let n3 := numberAt data 2 (start + 4)
  let used := 6 + n1 + n2 + n3
  if used > size then throw .corrupted
  let segment := (count + 3) / 4
  if 3 * segment > count then throw .corrupted
  let p1 := start + 6
  let out ← decodeStream t data p1 n1 segment ByteArray.empty
  let out ← decodeStream t data (p1 + n1) n2 segment out
  let out ← decodeStream t data (p1 + n1 + n2) n3 segment out
  decodeStream t data (p1 + n1 + n2 + n3) (size - used) (count - 3 * segment) out

end Depot.Zstd.Huffman
