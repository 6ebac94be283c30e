import Depot.Zstd.Block
import Depot.Zstd.Checksum

/-!
# Frames

The headers of frames, of skippable frames and of blocks, and the decoding of a whole frame.
-/

namespace Depot.Zstd

def frameMagic : Nat := 0xFD2FB528

/-- The number with which a skippable frame begins, its low four bits cleared. -/
def skippableMagic : Nat := 0x184D2A50

def blockMax : Nat := 0x20000

/-- The greatest window that a reader grants. -/
def windowMax : Nat := 0x8000001

inductive Header where
  /-- A frame with its window, its content size if announced, its dictionary (zero for none),
  and whether a checksum follows. -/
  | frame (window : Nat) (content : Option Nat) (dictionary : Nat) (checksum : Bool)
  /-- A frame to skip, with the number of its bytes. -/
  | skippable (size : Nat)

/-- Whether `b` can be the beginning of the four bytes of a magic number. -/
def looksLikeMagic (b : ByteArray) : Bool :=
  let n := min 4 b.size
  (List.range n).all (fun i => byteAt b i == frameMagic >>> (8 * i) % 256) ||
    (List.range n).all fun i =>
      (if i = 0 then byteAt b 0 / 16 * 16 else byteAt b i) == skippableMagic >>> (8 * i) % 256

/-- The widths of the dictionary field and of the content size field. -/
def fieldWidths (descriptor : Nat) : Nat × Nat :=
  ([0, 1, 2, 4].getD (descriptor % 4) 0,
    match descriptor / 64 with
    | 0 => descriptor / 32 % 2
    | code => 1 <<< code)

/-- The number of bytes of the header whose first bytes are in `b`, as far as they tell. -/
def headerSize (b : ByteArray) : Except Fault Nat :=
  if b.size < 5 then if looksLikeMagic b then .ok 5 else .error .unknownFrame
  else if numberAt b 4 0 ≠ frameMagic then
    if numberAt b 4 0 / 16 * 16 = skippableMagic then .ok 8 else .error .unknownFrame
  else
    let descriptor := byteAt b 4
    let (dictionary, content) := fieldWidths descriptor
    .ok (5 + (1 - descriptor / 32 % 2) + dictionary + content)

def readHeader (b : ByteArray) : Except Fault Header :=
  if numberAt b 4 0 ≠ frameMagic then .ok (.skippable (numberAt b 4 4))
  else
    let descriptor := byteAt b 4
    let single := descriptor / 32 % 2 = 1
    let (dictWidth, contentWidth) := fieldWidths descriptor
    let windowByte := byteAt b 5
    let windowLog := windowByte / 8 + 10
    let at' := if single then 5 else 6
    let dictionary := numberAt b dictWidth at'
    let content := numberAt b contentWidth (at' + dictWidth)
    let content? := match contentWidth with
      | 0 => none
      | 2 => some (content + 256)
      | _ => some content
    let window := if single then content?.getD 0
      else 1 <<< windowLog + 1 <<< windowLog / 8 * (windowByte % 8)
    if descriptor / 8 % 2 = 1 then .error .unsupportedParameter
    else if !single ∧ windowLog > 31 then .error .windowTooLarge
    else .ok (.frame window content? dictionary (descriptor / 4 % 2 == 1))

inductive BlockKind where
  | raw
  | repeated
  | compressed
  deriving DecidableEq

/-- What a block header announces; `size` counts the bytes that the block stands for when it is
`repeated`, and its own bytes otherwise. -/
structure BlockHeader where
  isLast : Bool
  kind : BlockKind
  size : Nat

/-- The number of bytes behind a block header that belong to the block. -/
def BlockHeader.length (h : BlockHeader) : Nat := if h.kind = .repeated then 1 else h.size

def readBlockHeader (b : ByteArray) (at' : Nat) : Except Fault BlockHeader :=
  let n := numberAt b 3 at'
  let isLast := n % 2 == 1
  match n / 2 % 4 with
  | 0 => .ok ⟨isLast, .raw, n / 8⟩
  | 1 => .ok ⟨isLast, .repeated, n / 8⟩
  | 2 => .ok ⟨isLast, .compressed, n / 8⟩
  | _ => .error .corrupted

/-- The address behind the blocks that begin at `at'`, when all of them are there. -/
def blocksEnd? (b : ByteArray) : Nat → Nat → Option Nat
  | 0, _ => none
  | fuel + 1, at' =>
    if at' + 3 > b.size then none
    else match readBlockHeader b at' with
      | .error _ => none
      | .ok h =>
        let next := at' + 3 + h.length
        if next > b.size then none
        else if h.isLast then some next else blocksEnd? b fuel next

/-- The number of bytes of the frame at the beginning of `b`, when all of it is there. -/
def frameLength? (b : ByteArray) (head : Nat) (checksum : Bool) : Option Nat := do
  let stop ← blocksEnd? b b.size head
  let stop := if checksum then stop + 4 else stop
  if stop ≤ b.size then some stop else none

/-- Decode the blocks of a complete frame, at most `room` bytes, each block at most `limit`. -/
def decodeBlocks (b : ByteArray) (room limit : Nat) :
    Nat → Nat → ByteArray → Heritage → Except Fault (ByteArray × Nat)
  | 0, _, _, _ => .error .corrupted
  | fuel + 1, at', out, heritage => do
    let h ← readBlockHeader b at'
    let body := at' + 3
    let (out, heritage) ← match h.kind with
      | .raw =>
        if out.size + h.size > room then throw .overlongBlock
        pure (out ++ b.extract body (body + h.size), heritage)
      | .repeated =>
        if out.size + h.size > room then throw .overlongBlock
        pure (out ++ ⟨Array.replicate h.size (UInt8.ofNat (byteAt b body))⟩, heritage)
      | .compressed => Block.decode heritage out b body h.size limit
    if h.isLast then return (out, body + h.length)
    else decodeBlocks b room limit fuel (body + h.length) out heritage

/-- Decode a complete frame of known content size whose header takes `head` bytes. -/
def decodeFrame (b : ByteArray) (head room window content dictionary : Nat) (checksum : Bool) :
    Except Fault ByteArray := do
  if dictionary ≠ 0 then throw .wrongDictionary
  let (out, stop) ← decodeBlocks b room (min window blockMax) b.size head ByteArray.empty {}
  if out.size ≠ content then throw .corrupted
  if checksum ∧ numberAt b 4 stop ≠ Checksum.content out then throw .badChecksum
  return out

end Depot.Zstd
