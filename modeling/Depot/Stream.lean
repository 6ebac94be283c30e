import Depot.Base32
import Depot.Codec
import Depot.Error
import Depot.Sha256

/-!
# Transform streams

A transform stream carries the payload of one transfer. Bytes flow from a source through optional
stages (decompress, count and hash, compress) to whoever reads them. Beside the stages stands a
barrier: it is pending until the reader has seen the end, and then complete with the number of bytes
and the digest, or it has failed. A barrier that was fired never changes.

A read is two steps. First the barrier is looked at (`mayRead`); a failed one refuses the read. Then
the stages are pulled (`pull`). Waiting for the barrier, giving up, and draining go beside the
reads, each as one step.
-/

namespace Depot

/-- Why a transfer did not complete. -/
inductive Failure where
  /-- The reader let go of the stream before its end. -/
  | abandoned
  /-- Nobody read to the end in time. -/
  | timedOut
  /-- The transfer was given up. -/
  | aborted
  /-- A read failed. -/
  | read (codec : Bool) (message : String)
  deriving DecidableEq, Repr

namespace Failure

/-- The error that whoever waits for the stream gets. -/
def error : Failure → TransferError
  | .abandoned => .internal "backend released the stream before reading it fully"
  | .timedOut => .timeout "transfer already timed out"
  | .aborted => .internal "transfer aborted"
  | .read true message => .codec message
  | .read false message => .internal ("transfer stream interrupted: " ++ message)

/-- The error that a later read gets. -/
def readError : Failure → ReadError
  | .timedOut => ⟨.timedOut, "transfer timed out", false⟩
  | .aborted | .abandoned => ⟨.connectionAborted, "transfer aborted", false⟩
  | .read true message => ⟨.invalidData, message, false⟩
  | .read false message => ⟨.other, message, false⟩

end Failure

/-- Whether a transfer has come to its end. -/
inductive Barrier where
  | pending
  | completed (bytes : Nat) (digest : Option Bytes)
  | failed (failure : Failure)
  deriving DecidableEq, Repr

namespace Barrier

def failure? : Barrier → Option Failure
  | .failed f => some f
  | _ => none

def isComplete : Barrier → Bool
  | .completed _ _ => true
  | _ => false

end Barrier

/-- Counts and, if asked to, hashes the bytes that flow through. -/
structure Tap where
  bytes : Nat := 0
  hasher : Option Sha256 := none
  digest : Option Bytes := none

namespace Tap

/-- Take note of the answer to a read of at most `n` bytes. -/
def note (t : Tap) (n : Nat) (out : Bytes) : Tap :=
  if out.isEmpty ∧ n ≠ 0 then
    match t.hasher with
    | some h => { t with hasher := none, digest := some h.finish }
    | none => t
  else { t with bytes := t.bytes + out.length, hasher := t.hasher.map (·.absorb out) }

end Tap

/-- The stages asked for. -/
structure Stages where
  decompress : Bool := false
  digest : Bool := false
  compress : Bool := false
  deriving DecidableEq, Repr

/-- The source with its stages. They are put together at the first read. -/
structure Pipeline where
  source : Source
  stages : Stages := {}
  built : Bool := false
  inflate : Inflate := {}
  tap : Tap := {}
  deflate : Deflate := {}
  /-- Whether the end, or an error, was reached. -/
  finished : Bool := false

namespace Pipeline

def build (p : Pipeline) : Pipeline :=
  if p.built then p
  else { p with built := true, tap := { p.tap with hasher := if p.stages.digest then some .start else none } }

/-- Read at most `n` bytes of plaintext, past the tap. -/
def readPlain (p : Pipeline) (n : Nat) : ReadResult × Pipeline :=
  let (r, p) : ReadResult × Pipeline :=
    if p.stages.decompress then
      let (r, inflate, source) := p.inflate.read p.source n
      (r, { p with inflate := inflate, source := source })
    else
      let (r, source) := p.source.read n
      (r, { p with source := source })
  match r with
  | .ok out => (.ok out, { p with tap := p.tap.note n out })
  | .error e => (.error e, p)

/-- Compress plaintext until something comes out. -/
def readDeflated (n : Nat) : Nat → Pipeline → ReadResult × Pipeline
  | 0, p => (.error (Codec.stuck false), p)
  | fuel + 1, p =>
    if !p.deflate.ready.isEmpty ∨ p.deflate.ended then
      let (out, deflate) := p.deflate.give n
      (.ok out, { p with deflate := deflate })
    else
      match p.readPlain Codec.deflateChunk with
      | (.error e, p) => (.error e, p)
      | (.ok contents, p) => readDeflated n fuel { p with deflate := p.deflate.take contents }

/-- A bound on the reads that the source and what is held of it can answer. -/
def weight (p : Pipeline) : Nat :=
  64 * (p.source.weight + p.inflate.held.length + p.inflate.decoder.pending) + 64

/-- Read at most `n` bytes off the end of the stages. -/
def readBuilt (p : Pipeline) (n : Nat) : ReadResult × Pipeline :=
  if p.stages.compress then readDeflated n Codec.deflateRounds p else p.readPlain n

/-- Read from the stages, or from the bare source where they were never put together. -/
def readRemainder (p : Pipeline) (n : Nat) : ReadResult × Pipeline :=
  if p.built then p.readBuilt n
  else
    let (r, source) := p.source.read n
    (r, { p with source := source })

end Pipeline

/-- A transform stream. -/
structure Stream where
  pipeline : Pipeline
  barrier : Barrier := .pending
  /-- Whether a read was ever let through. -/
  started : Bool := false

namespace Stream

def ofSource (s : Source) : Stream := { pipeline := { source := s } }

/-- Stages can be asked for until the first read. -/
def configure (s : Stream) (f : Stages → Stages) : Except TransferError Stream :=
  if s.started then
    .error (.invalidState "stream stages must be enabled before the first read")
  else .ok { s with pipeline := { s.pipeline with stages := f s.pipeline.stages } }

/-- The stream over what has become of its source in the meantime. -/
def mapSource (f : Source → Source) (s : Stream) : Stream :=
  { s with pipeline := { s.pipeline with source := f s.pipeline.source } }

/-- Decompress the source before anything else sees it. -/
def enableDecompress (s : Stream) : Except TransferError Stream :=
  s.configure fun st => { st with decompress := true }

def enableDigest (s : Stream) : Except TransferError Stream :=
  s.configure fun st => { st with digest := true }

def enableCompress (s : Stream) : Except TransferError Stream :=
  s.configure fun st => { st with compress := true }

/-- Fire the barrier, unless it was fired before. -/
def fire (s : Stream) (b : Barrier) : Stream :=
  match s.barrier with
  | .pending => { s with barrier := b }
  | _ => s

/-- The first step of a read: a failed transfer refuses it. -/
def mayRead (s : Stream) : Except ReadError Unit :=
  match s.barrier.failure? with
  | some f => .error f.readError
  | none => .ok ()

/-- What a pull does at the stages, before it fires the barrier: its answer, what the barrier is fired
with, if at all, and the stream. The end, and an error that is not transient, fire the barrier; they
also end the stages for good. -/
def work (s : Stream) (n : Nat) : ReadResult × Option Barrier × Stream :=
  if s.pipeline.finished then (.ok [], none, s)
  else
    match s.pipeline.build.readBuilt n with
    | (.ok out, p) =>
      if out.isEmpty ∧ n ≠ 0 then
        (.ok [], some (.completed p.tap.bytes p.tap.digest),
          { s with started := true, pipeline := { p with finished := true } })
      else (.ok out, none, { s with started := true, pipeline := p })
    | (.error e, p) =>
      if e.kind.isTransient then (.error e, none, { s with started := true, pipeline := p })
      else
        (.error e, some (.failed (.read e.codec e.message)),
          { s with started := true, pipeline := { p with finished := true } })

/-- The second step of a read: pull the stages, and fire the barrier. -/
def pull (s : Stream) (n : Nat) : ReadResult × Stream :=
  let (r, b, s) := s.work n
  (r, b.elim s s.fire)

/-- Read at most `n` bytes. -/
def read (s : Stream) (n : Nat) : ReadResult × Stream :=
  match s.mayRead with
  | .error e => (.error e, s)
  | .ok () => s.pull n

/-- The reader lets go of the stream. -/
def release (s : Stream) : Stream := s.fire (.failed .abandoned)

/-- Give up on the transfer. The answer tells whether that made a difference. -/
def abort (s : Stream) : Bool × Stream := (s.barrier == .pending, s.fire (.failed .aborted))

/-- What whoever waits for the stream gets, once the barrier was fired. -/
def outcome? (s : Stream) : Option (Except TransferError Nat) :=
  match s.barrier with
  | .pending => none
  | .completed bytes _ => some (.ok bytes)
  | .failed f => some (.error f.error)

/-- The wait for the stream is over after `ms` milliseconds: a barrier that is still pending
fails. -/
def waitFor (s : Stream) (ms : Nat) : Except TransferError Nat × Stream :=
  match s.outcome? with
  | some r => (r, s)
  | none =>
    (.error (.timeout s!"backend did not consume the body within {ms} ms"),
      s.fire (.failed .timedOut))

/-- The digest of a completed transfer, in base32. -/
def digest (s : Stream) : Except TransferError String :=
  match s.barrier with
  | .completed _ (some digest) => .ok (Base32.encode digest)
  | .completed _ none => .error (.invalidState "digest was not enabled")
  | _ => .error (.invalidState "digest is only available after the stream completed")

def drainChunk : Nat := 65536

/-- Discard what is left until the end, an error, or a read for which nothing has arrived; the
number of bytes discarded, and whether the drain came to an end of its own. -/
def drainLoop : Nat → Pipeline → Nat → (Nat × Bool) × Pipeline
  | 0, p, total => ((total, false), p)
  | fuel + 1, p, total =>
    match p.readRemainder drainChunk with
    | (.ok [], p) => ((total, true), { p with finished := true })
    | (.ok out, p) => drainLoop fuel p (total + out.length)
    | (.error e, p) =>
      if e.kind = .interrupted then drainLoop fuel p total else ((total, e.kind != .pending), p)

/-- Discard what is left, in at most so many reads; how many bytes that were, and whether it came to an
end of its own. -/
def discard (s : Stream) (reads : Nat) : (Nat × Bool) × Stream :=
  if s.pipeline.finished then ((0, true), s)
  else
    let (r, p) := drainLoop reads s.pipeline 0
    (r, { s with pipeline := p })

/-- Give up on the transfer and discard the rest of the payload; the number of bytes discarded, or
nothing when the payload did not end in time. -/
def drain (s : Stream) : Option Nat × Stream :=
  let ((total, done), s) := (s.fire (.failed .aborted)).discard s.pipeline.weight
  (if done then some total else none, s)

/-- Drain a stream for `ms` milliseconds. Without any time the wait is over before the drain has begun. -/
def drainFor (s : Stream) (ms : Nat) : Option Nat × Stream := if ms = 0 then (none, s) else s.drain

def isComplete (s : Stream) : Bool := s.barrier.isComplete

end Stream

end Depot
