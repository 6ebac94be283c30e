import Depot.Zstd.Frame
import Depot.Bytes

/-!
# Writing frames

The encoder writes one frame of stored blocks: the contents are cut into blocks of `blockMax`
bytes, and the last block, which may be empty, is marked. No content size is announced, because a
frame is begun before its contents are known.
-/

namespace Depot.Zstd

/-- The bytes in front of the first block: the magic number, a descriptor without any optional
field, and a window of one block. -/
def Encoder.header : Bytes := Bytes.ofNat 4 frameMagic ++ [0x00, 0x38]

def Encoder.storedBlock (isLast : Bool) (contents : Bytes) : Bytes :=
  Bytes.ofNat 3 (8 * contents.length + if isLast then 1 else 0) ++ contents

/-- A frame under way: whether its header was written, and the contents of the block not yet
full. -/
structure Encoder where
  begun : Bool := false
  held : Bytes := []

namespace Encoder

/-- The blocks that are full, and what is left over. -/
def fullBlocks : Nat → Bytes → Bytes × Bytes
  | 0, held => ([], held)
  | fuel + 1, held =>
    if held.length ≤ blockMax then ([], held)
    else
      let (rest, left) := fullBlocks fuel (held.drop blockMax)
      (storedBlock false (held.take blockMax) ++ rest, left)

/-- Take contents: the encoder afterwards, and the part of the frame that is now settled. -/
def feed (e : Encoder) (contents : Bytes) : Encoder × Bytes :=
  let held := e.held ++ contents
  let (blocks, left) := fullBlocks (held.length / blockMax) held
  if blocks.isEmpty then ({ e with held := left }, [])
  else (⟨true, left⟩, (if e.begun then [] else header) ++ blocks)

def finish (e : Encoder) : Bytes :=
  (if e.begun then [] else header) ++ storedBlock true e.held

end Encoder

def encode (contents : Bytes) : Bytes :=
  let (e, front) := ({} : Encoder).feed contents
  front ++ e.finish

end Depot.Zstd
