import Depot.Zstd.Frame

/-!
# Incremental decoding

A decoder is fed pieces of a compressed payload and hands out what they decode to, never more than
it is asked for at a time. It takes frames and skippable frames one after another. `feed` stops when
the piece is used up, when what is asked for is full, or at the end of a frame. A failure takes the
output of the same call with it.
-/

namespace Depot.Zstd

/-- Where in a payload a decoder stands. -/
inductive Phase where
  /-- In a frame header, of which `held` was read. -/
  | header (held : ByteArray)
  | blockHeader (held : ByteArray)
  /-- In a stored block with `left` bytes to come. -/
  | raw (left : Nat) (isLast : Bool)
  /-- In a block that is decoded when all its bytes are there. -/
  | block (header : BlockHeader) (held : ByteArray)
  | checksum (held : ByteArray)
  /-- In a skippable frame with `left` bytes to come. -/
  | skip (left : Nat)
  /-- Behind the last byte of a frame whose contents may still wait to be handed out. -/
  | ended

/-- A decoder: where it stands, what the frame announced, what the blocks handed on, and the
contents of the frame so far, of which the first `given` bytes were handed out. -/
structure Decoder where
  phase : Phase := .header ByteArray.empty
  limit : Nat := 0
  content : Option Nat := none
  hasChecksum : Bool := false
  heritage : Heritage := {}
  history : ByteArray := ByteArray.empty
  given : Nat := 0
  /-- Whether the last byte taken was the last of a frame. -/
  finished : Bool := false

namespace Decoder

/-- The number of decoded bytes that wait to be handed out. -/
def pending (d : Decoder) : Nat := d.history.size - d.given

def atEnd (_ : Decoder) : Decoder := { finished := true }

def afterBlocks (d : Decoder) : Decoder :=
  { d with phase := if d.hasChecksum then .checksum ByteArray.empty else .ended }

def afterBlock (d : Decoder) (isLast : Bool) : Except Fault Decoder :=
  if isLast then
    if d.content.any (· ≠ d.history.size) then .error .corrupted else .ok d.afterBlocks
  else .ok { d with phase := .blockHeader ByteArray.empty }

def afterHeader (d : Decoder) (h : Header) : Except Fault Decoder :=
  match h with
  | .skippable n => .ok { d with phase := .skip n }
  | .frame window content dictionary checksum =>
    if dictionary ≠ 0 then .error .wrongDictionary
    else if max window 1024 > windowMax then .error .windowTooLarge
    else .ok { d with
      phase := .blockHeader ByteArray.empty, limit := min window blockMax, content := content
      hasChecksum := checksum, heritage := {}, history := ByteArray.empty, given := 0 }

def afterBlockHeader (d : Decoder) (h : BlockHeader) : Except Fault Decoder :=
  if h.length > d.limit then .error .corrupted
  else if h.length = 0 then
    .ok (if h.isLast then d.afterBlocks else { d with phase := .blockHeader ByteArray.empty })
  else match h.kind with
    | .raw => .ok { d with phase := .raw h.size h.isLast }
    | _ => .ok { d with phase := .block h ByteArray.empty }

def decodeBlock (d : Decoder) (h : BlockHeader) (bytes : ByteArray) : Except Fault Decoder :=
  match h.kind with
  | .repeated =>
    if h.size > d.limit then .error .corrupted
    else afterBlock { d with
      history := d.history ++ ⟨Array.replicate h.size (UInt8.ofNat (byteAt bytes 0))⟩ } h.isLast
  | _ => do
    let (history, heritage) ← Block.decode d.heritage d.history bytes 0 bytes.size d.limit
    afterBlock { d with history := history, heritage := heritage } h.isLast

/-- A piece of payload with the address up to which it was taken, the room left in what is asked
for, and the output so far. -/
structure Feed where
  input : ByteArray
  taken : Nat
  room : Nat
  output : ByteArray

def Feed.left (f : Feed) : Nat := f.input.size - f.taken

def Feed.take (f : Feed) (count : Nat) : ByteArray × Feed :=
  let n := min count f.left
  (f.input.extract f.taken (f.taken + n), { f with taken := f.taken + n })

/-- Hand out what is pending, as far as there is room. -/
def flush (d : Decoder) (f : Feed) : Decoder × Feed :=
  let n := min d.pending f.room
  ({ d with given := d.given + n },
    { f with room := f.room - n, output := f.output ++ d.history.extract d.given (d.given + n) })

/-- Decode a whole frame in one go when all of it lies in the piece, header included, and its
announced content fits into the room. -/
def wholeFrame? (f : Feed) (head : Nat) (h : Header) : Option (Except Fault Feed) :=
  match h with
  | .frame window (some content) dictionary checksum =>
    if content > f.room then none
    else
      (frameLength? f.input head checksum).map fun length => do
        let out ← decodeFrame f.input head f.room window content dictionary checksum
        return { f with taken := length, room := f.room - content, output := f.output ++ out }
  | _ => none

/-- Whether to go on, and where one step led. -/
abbrev Stepped := Bool × Decoder × Feed

/-- Collect `need` bytes behind `held`: either all are there, or the piece is used up. -/
def collect (f : Feed) (held : ByteArray) (need : Nat) : ByteArray × Feed :=
  let (bytes, f) := f.take (need - held.size)
  (held ++ bytes, f)

/-- One step of decoding; `fresh` says that the call began at a frame. -/
def step (fresh : Bool) (d : Decoder) (f : Feed) : Except Fault Stepped :=
  match d.phase with
  | .header held => do
    let need ← headerSize held
    let (held, f) := collect f held need
    let more ← headerSize held
    if held.size < need then
      return (false, { d with phase := .header held, finished := d.finished && held.isEmpty }, f)
    else if held.size < more then
      return (true, { d with phase := .header held, finished := false }, f)
    else
      let h ← readHeader held
      match if fresh then wholeFrame? f held.size h else none with
      | some done => return (false, d.atEnd, ← done)
      | none => return (true, ← { d with finished := false }.afterHeader h, f)
  | .blockHeader held => do
    let (held, f) := collect f held 3
    if held.size < 3 then return (false, { d with phase := .blockHeader held }, f)
    return (true, ← d.afterBlockHeader (← readBlockHeader held 0), f)
  | .raw left isLast => do
    let (bytes, f) := f.take left
    if bytes.isEmpty then return (false, d, f)
    let d := { d with history := d.history ++ bytes }
    let d ← if bytes.size = left then d.afterBlock isLast
      else pure { d with phase := .raw (left - bytes.size) isLast }
    return (true, d, f)
  | .block h held => do
    let (held, f) := collect f held h.length
    if held.size < h.length then return (false, { d with phase := .block h held }, f)
    return (true, ← d.decodeBlock h held, f)
  | .checksum held => do
    let (held, f) := collect f held 4
    if held.size < 4 then return (false, { d with phase := .checksum held }, f)
    if numberAt held 4 0 ≠ Checksum.content d.history then throw .badChecksum
    return (false, d.atEnd, f)
  | .skip left =>
    let (bytes, f) := f.take left
    if bytes.size = left then return (false, d.atEnd, f)
    else return (false, { d with phase := .skip (left - bytes.size) }, f)
  | .ended => return (false, d.atEnd, f)

/-- Steps alternate with handing out; nothing is decoded while output waits for room. -/
def run (fresh : Bool) : Nat → Decoder → Feed → Except Fault (Decoder × Feed)
  | 0, d, f => .ok (d, f)
  | fuel + 1, d, f =>
    let (d, f) := d.flush f
    if d.pending > 0 then .ok (d, f)
    else do
      let (more, d, f) ← step fresh d f
      if more then run fresh fuel d f else return (d, f)

/-- Feed a piece of payload and ask for at most `room` bytes: the decoder afterwards, the number of
bytes taken, and the output. -/
def feed (d : Decoder) (input : ByteArray) (room : Nat) :
    Except Fault (Decoder × Nat × ByteArray) := do
  let fresh := match d.phase with
    | .header held => held.isEmpty
    | _ => false
  let (d, f) ← run fresh (3 * input.size + 8) d ⟨input, 0, room, ByteArray.empty⟩
  return (d, f.taken, f.output)

/-- Whether the payload may end here: behind a frame, with everything handed out. -/
def mayEnd (d : Decoder) : Bool := d.finished && d.pending == 0

end Decoder

end Depot.Zstd
