import Depot.Zstd.Huffman

/-!
# Compressed blocks

A compressed block holds literals and sequences. A sequence copies some literals to the output and
then repeats bytes that were already written. Tables and recent distances are handed on from block
to block within a frame.
-/

namespace Depot.Zstd

/-- The three tables by which sequences are read. -/
structure SequenceTables where
  literalLength : Fse.Table
  offset : Fse.Table
  matchLength : Fse.Table

/-- What a block hands on to the next one. -/
structure Heritage where
  literals : Option Huffman.Table := none
  sequences : Option SequenceTables := none
  /-- The three distances used last, the latest first. -/
  recent : Nat × Nat × Nat := (1, 4, 8)

namespace Block

/-- A symbol's base value and the number of bits that are added to it. -/
abbrev Code := Nat × Nat

/-- Base values with their widths, each value the one before plus two to its width. -/
def codesFrom (start : Nat) (widths : List Nat) : List Code :=
  (widths.foldl (fun (acc : Nat × List Code) w => (acc.1 + 1 <<< w, (acc.1, w) :: acc.2)) (start, [])).2.reverse

def literalLengthCodes : Array Code :=
  (codesFrom 0 (List.replicate 16 0 ++ [1, 1, 1, 1, 2, 2, 3, 3, 4, 6, 7, 8, 9, 10, 11, 12, 13, 14,
    15, 16])).toArray

def matchLengthCodes : Array Code :=
  (codesFrom 3 (List.replicate 32 0 ++ [1, 1, 1, 1, 2, 2, 3, 3, 4, 4, 5, 7, 8, 9, 10, 11, 12, 13,
    14, 15, 16])).toArray

/-- A distribution written with `-1` for an unlikely symbol. -/
def shares (ns : List Int) : List Fse.Share :=
  ns.map fun n => if n < 0 then none else some n.toNat

def defaultLiteralLength : Fse.Table := Fse.build 6 (shares
  [4, 3, 2, 2, 2, 2, 2, 2, 2, 2, 2, 2, 2, 1, 1, 1, 2, 2, 2, 2, 2, 2, 2, 2, 2, 3, 2, 1, 1, 1, 1, 1,
    -1, -1, -1, -1])

def defaultMatchLength : Fse.Table := Fse.build 6 (shares
  [1, 4, 3, 2, 2, 2, 2, 2, 2, 1, 1, 1, 1, 1, 1, 1, 1, 1, 1, 1, 1, 1, 1, 1, 1, 1, 1, 1, 1, 1, 1, 1,
    1, 1, 1, 1, 1, 1, 1, 1, 1, 1, 1, 1, 1, 1, -1, -1, -1, -1, -1, -1, -1])

def defaultOffset : Fse.Table := Fse.build 5 (shares
  [1, 1, 1, 1, 1, 1, 2, 2, 2, 1, 1, 1, 1, 1, 1, 1, 1, 1, 1, 1, 1, 1, 1, 1, -1, -1, -1, -1, -1])

/-- The literals of a block, the number of bytes they took, and the table they leave behind. -/
structure Literals where
  bytes : ByteArray
  used : Nat
  table : Option Huffman.Table

/-- Sizes in the header of plain literals: the header's length and the number of literals. -/
def plainHeader (data : ByteArray) (start : Nat) : Nat × Nat :=
  match byteAt data start / 4 % 4 with
  | 1 => (2, numberAt data 2 start / 16)
  | 3 => (3, numberAt data 3 start / 16)
  | _ => (1, byteAt data start / 8)

/-- Sizes in the header of coded literals: the header's length, the number of literals, the number
of bytes, and whether they come in a single stream. -/
def codedHeader (data : ByteArray) (start : Nat) : Nat × Nat × Nat × Bool :=
  let n := numberAt data 5 start / 16
  match byteAt data start / 4 % 4 with
  | 2 => (4, n % 0x4000, n / 0x4000 % 0x4000, false)
  | 3 => (5, n % 0x40000, n / 0x40000 % 0x40000, false)
  | code => (3, n % 0x400, n / 0x400 % 0x400, code == 0)

/-- Read the literals at the head of a block of `size` bytes at `start`. -/
def readLiterals (h : Heritage) (data : ByteArray) (start size limit : Nat) :
    Except Fault Literals := do
  if size < 2 then throw .corrupted
  match byteAt data start % 4 with
  | 0 =>
    let (head, count) := plainHeader data start
    if head = 3 ∧ size < 3 ∨ count > limit ∨ head + count > size then throw .corrupted
    return ⟨data.extract (start + head) (start + head + count), head + count, h.literals⟩
  | 1 =>
    let (head, count) := plainHeader data start
    if head + 1 > size ∨ count > limit then throw .corrupted
    let byte := UInt8.ofNat (byteAt data (start + head))
    return ⟨⟨Array.replicate count byte⟩, head + 1, h.literals⟩
  | kind =>
    if kind = 3 ∧ h.literals.isNone then throw .noEarlierTable
    if size < 5 then throw .corrupted
    let (head, count, coded, single) := codedHeader data start
    if count > limit then throw .corrupted
    if !single ∧ count < 6 then throw .literalsHeader
    if head + coded > size then throw .corrupted
    let (table, used) ← match kind, h.literals with
      | 3, some t => pure (t, 0)
      | _, _ => Huffman.readTable data (start + head) coded
    let at' := start + head + used
    let bytes ← if single then
        Huffman.decodeStream table data at' (coded - used) count ByteArray.empty
      else Huffman.decodeFour table data at' (coded - used) count
    return ⟨bytes, head + coded, some table⟩

/-- Read one of the three tables: predefined, constant, described, or taken over. -/
def readSequenceTable (kind : Nat) (fallback : Fse.Table) (earlier : Option Fse.Table)
    (symbols maxLog : Nat) (data : ByteArray) (start size : Nat) :
    Except Fault (Fse.Table × Nat) :=
  match kind with
  | 0 => .ok (fallback, 0)
  | 1 =>
    if size = 0 ∨ byteAt data start ≥ symbols then .error .corrupted
    else .ok (Fse.Table.constant (byteAt data start), 1)
  | 2 => Fse.readTable data start size symbols maxLog
  | _ => match earlier with
    | some t => .ok (t, 0)
    | none => .error .corrupted

/-- The number of sequences, and the number of bytes that say so. -/
def sequenceCount (data : ByteArray) (start size : Nat) : Except Fault (Nat × Nat) :=
  let b := byteAt data start
  if size < 1 then .error .shortBlock
  else if b < 128 then .ok (b, 1)
  else if b = 255 then
    if size < 3 then .error .shortBlock else .ok (numberAt data 2 (start + 1) + 0x7F00, 3)
  else if size < 2 then .error .shortBlock
  else .ok ((b - 128) * 256 + byteAt data (start + 1), 2)

/-- The state of the three tables and the stream behind them. -/
structure Reading where
  literalLength : Nat
  offset : Nat
  matchLength : Nat
  stream : BackwardBits

/-- One sequence: how many literals, the value of the offset field, how many bytes to repeat. -/
structure Sequence where
  literals : Nat
  offsetValue : Nat
  repeated : Nat

/-- Read one sequence; the states move on unless it is the last. -/
def readSequence (t : SequenceTables) (isLast : Bool) (r : Reading) : Sequence × Reading :=
  let ll := t.literalLength.entry r.literalLength
  let off := t.offset.entry r.offset
  let ml := t.matchLength.entry r.matchLength
  let (offBits, s) := r.stream.take off.symbol
  let (mlBase, mlWidth) := matchLengthCodes.getD ml.symbol (0, 0)
  let (mlBits, s) := s.take mlWidth
  let (llBase, llWidth) := literalLengthCodes.getD ll.symbol (0, 0)
  let (llBits, s) := s.take llWidth
  let found : Sequence := ⟨llBase + llBits, 1 <<< off.symbol + offBits, mlBase + mlBits⟩
  if isLast then (found, { r with stream := s })
  else
    let (b1, s) := s.take ll.bits
    let (b2, s) := s.take ml.bits
    let (b3, s) := s.take off.bits
    (found, ⟨ll.base + b1, off.base + b3, ml.base + b2, s⟩)

/-- The distance that an offset value means, and the recent distances afterwards. -/
def distance (recent : Nat × Nat × Nat) (s : Sequence) : Nat × (Nat × Nat × Nat) :=
  let (r1, r2, r3) := recent
  if s.offsetValue > 3 then (s.offsetValue - 3, (s.offsetValue - 3, r1, r2))
  else
    match s.offsetValue - 1 + (if s.literals = 0 then 1 else 0) with
    | 0 => (r1, recent)
    | 1 => (r2, (r2, r1, r3))
    | 2 => (r3, (r3, r1, r2))
    | _ => (r1 - 1, (r1 - 1, r1, r2))

/-- Append `count` bytes, each a copy of the one `back` bytes before it. -/
def repeatBack (back : Nat) : Nat → ByteArray → ByteArray
  | 0, out => out
  | count + 1, out =>
    repeatBack back count (out.push (UInt8.ofNat (byteAt out (out.size - back))))

/-- The output under way: the history, and how many literals were used. -/
structure Output where
  bytes : ByteArray
  used : Nat
  recent : Nat × Nat × Nat

/-- Read and carry out `count` sequences. -/
def runSequences (t : SequenceTables) (literals : ByteArray) (limit : Nat) :
    Nat → Reading → Output → Except Fault (Reading × Output)
  | 0, r, out => .ok (r, out)
  | count + 1, r, ⟨written, used, recent⟩ =>
    let (s, r) := readSequence t (count == 0) r
    let (back, recent) := distance recent s
    let bytes := written ++ literals.extract used (used + s.literals)
    if used + s.literals > literals.size then .error .corrupted
    else if back = 0 ∨ back > bytes.size ∨ bytes.size + s.repeated > limit then .error .corrupted
    else
      runSequences t literals limit count r
        ⟨repeatBack back s.repeated bytes, used + s.literals, recent⟩

/-- Decode the compressed block of `size` bytes at `start` onto `history`; it may add at most
`limit` bytes. -/
def decode (h : Heritage) (history data : ByteArray) (start size limit : Nat) :
    Except Fault (ByteArray × Heritage) := do
  if size > limit then throw .shortBlock
  let lits ← readLiterals h data start size limit
  let h := { h with literals := lits.table }
  let stop := start + size
  let at' := start + lits.used
  let (count, used) ← sequenceCount data at' (stop - at')
  let at' := at' + used
  if count = 0 then
    if at' ≠ stop then throw .corrupted
    return (history ++ lits.bytes, h)
  if at' ≥ stop then throw .shortBlock
  let modes := byteAt data at'
  if modes % 4 ≠ 0 then throw .corrupted
  let at' := at' + 1
  let (ll, used) ← readSequenceTable (modes / 64) defaultLiteralLength
    (h.sequences.map (·.literalLength)) 36 9 data at' (stop - at')
  let at' := at' + used
  let (off, used) ← readSequenceTable (modes / 16 % 4) defaultOffset
    (h.sequences.map (·.offset)) 32 8 data at' (stop - at')
  let at' := at' + used
  let (ml, used) ← readSequenceTable (modes / 4 % 4) defaultMatchLength
    (h.sequences.map (·.matchLength)) 53 9 data at' (stop - at')
  let at' := at' + used
  let tables : SequenceTables := ⟨ll, off, ml⟩
  let s ← BackwardBits.open? data at' (stop - at')
  let (s1, s) := s.take ll.log
  let (s2, s) := s.take off.log
  let (s3, s) := s.take ml.log
  let (r, out) ← runSequences tables lits.bytes (history.size + limit) count ⟨s1, s2, s3, s⟩
    ⟨history, 0, h.recent⟩
  if r.stream.left ≠ 0 then throw .corrupted
  let bytes := out.bytes ++ lits.bytes.extract out.used lits.bytes.size
  if bytes.size > history.size + limit then throw .corrupted
  return (bytes, { h with sequences := some tables, recent := out.recent })

end Block

end Depot.Zstd
