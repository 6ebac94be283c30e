import Depot.Source
import Depot.Zstd.Decoder
import Depot.Zstd.Encoder

/-!
# Compressing and decompressing readers

A reader that decompresses keeps what it took from its source and did not use yet. Its own failures
are marked as such, unless the source failed before: a peer that hangs up is not a codec error.
Errors that leave the source where it was pass through and change nothing.
-/

namespace Depot

namespace Codec

/-- How much a decompressing reader takes from its source at once. -/
def inflateChunk : Nat := 131075

/-- How much a compressing reader takes from its source at once. -/
def deflateChunk : Nat := 131072

/-- How often a compressing reader goes on at most until something comes out: each time it takes in a byte or
the end, and it writes as soon as a block is full. -/
def deflateRounds : Nat := deflateChunk + 3

def faultMessage (f : Zstd.Fault) : String := "zstd: " ++ f.message

/-- The error that a failure of the codec raises; once the source has failed it is not marked. -/
def raise (sourceFailed : Bool) (f : Zstd.Fault) : ReadError :=
  if sourceFailed then
    ⟨if f = .incomplete then .unexpectedEnd else .other, f.message, false⟩
  else ⟨.invalidData, faultMessage f, true⟩

/-- The error of a reader that was read again and again and got nowhere. -/
def stuck (sourceFailed : Bool) : ReadError := raise sourceFailed .noProgress

end Codec

/-- A decompressing reader over a source. -/
structure Inflate where
  decoder : Zstd.Decoder := {}
  /-- What was taken from the source and is not used yet. -/
  held : Bytes := []
  sourceFailed : Bool := false
  ended : Bool := false

namespace Inflate

/-- Decode what is held, for at most `n` bytes of output. -/
def decode (i : Inflate) (input : Bytes) (n : Nat) : ReadResult × Inflate :=
  match i.decoder.feed (Bytes.pack input) n with
  | .error f => (.error (Codec.raise i.sourceFailed f), i)
  | .ok (decoder, taken, out) =>
    (.ok out.toList, { i with
      decoder := decoder, held := if input.isEmpty then i.held else input.drop taken })

/-- Take from the source and decode until something comes out or the source ends. A reader whose rounds
are used up is stuck. -/
def readLoop (n : Nat) : Nat → Inflate → Source → ReadResult × Inflate × Source
  | 0, i, s => (.error (Codec.stuck i.sourceFailed), i, s)
  | fuel + 1, i, s =>
    let filled : ReadResult × Source :=
      if i.held.isEmpty then s.read Codec.inflateChunk else (.ok i.held, s)
    match filled with
    | (.error e, s) =>
      (.error e, { i with sourceFailed := i.sourceFailed || !e.kind.isTransient }, s)
    | (.ok [], s) =>
      if i.decoder.mayEnd then (.ok [], { i with ended := true }, s)
      else (.error (Codec.raise i.sourceFailed .incomplete), i, s)
    | (.ok input, s) =>
      match { i with held := input }.decode input n with
      | (.error e, i) => (.error e, i, s)
      | (.ok [], i) => readLoop n fuel i s
      | (.ok out, i) => (.ok out, i, s)

def read (i : Inflate) (s : Source) (n : Nat) : ReadResult × Inflate × Source :=
  if i.ended then (.ok [], i, s)
  else match i.decode [] n with
    | (.error e, i) => (.error e, i, s)
    | (.ok [], i) => readLoop n (2 * (s.weight + i.held.length) + 4) i s
    | (.ok out, i) => (.ok out, i, s)

end Inflate

structure Deflate where
  encoder : Zstd.Encoder := {}
  /-- What was compressed and not handed out yet. -/
  ready : Bytes := []
  ended : Bool := false

namespace Deflate

/-- Hand out at most `n` bytes of what is ready. -/
def give (d : Deflate) (n : Nat) : Bytes × Deflate :=
  (d.ready.take n, { d with ready := d.ready.drop n })

/-- Take in a piece of contents, the empty one for the end. -/
def take (d : Deflate) (contents : Bytes) : Deflate :=
  if contents.isEmpty then { d with ready := d.ready ++ d.encoder.finish, ended := true }
  else
    let (encoder, out) := d.encoder.feed contents
    { d with encoder := encoder, ready := d.ready ++ out }

end Deflate

/-- The decompressed form of a byte string. -/
def Codec.inflate (bytes : Bytes) : Except Zstd.Fault Bytes :=
  let rec loop : Nat → Zstd.Decoder → Bytes → List Bytes → Except Zstd.Fault Bytes
    | 0, _, _, _ => .error .incomplete
    | fuel + 1, d, input, acc =>
      match d.feed (Bytes.pack input) Codec.inflateChunk with
      | .error f => .error f
      | .ok (d, taken, out) =>
        let rest := input.drop taken
        let acc := out.toList :: acc
        if rest.isEmpty ∧ out.isEmpty then
          if d.mayEnd then .ok acc.reverse.flatten else .error .incomplete
        else loop fuel d rest acc
  loop (64 * bytes.length + 16) {} bytes []

end Depot
