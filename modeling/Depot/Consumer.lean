import Depot.Store.Program
import Depot.Stream.Reading

/-!
# Consumers

A consumer is what a backend does with the stream that was handed to it. It runs beside the request:
it reads in pieces of its own choice, or gathers what there is, pauses, makes calls, and at last lets go
of the stream.

`drive` runs a consumer as far as it gets by itself. It stops where nothing has arrived yet, or where a
pause outlasts the time that the request is willing to wait; `resume` and `wake` go on from there. A
read that waits for more was let through before, so it is not refused when the transfer fails in the
meantime.
-/

namespace Depot

/-- What a backend does with a stream. -/
inductive Consumer (α : Type) where
  /-- Let go of the stream. -/
  | done (a : α)
  | read (n : Nat) (next : ReadResult → Consumer α)
  /-- Read until the end, until `limit` more bytes are there, or until an error that is not an
  interruption; `got` holds the pieces read so far, the last one first. -/
  | gather (limit : Option Nat) (got : List Bytes) (next : Bytes → Option ReadError → Consumer α)
  | pause (ms : Nat) (next : Consumer α)
  | call (c : Call) (next : Reply c.Answer → Consumer α)

namespace Consumer

variable {α : Type}

/-- How much a consumer that gathers reads at once. -/
def chunk : Nat := 65536

def gathered (limit : Option Nat) (got : List Bytes) (next : Bytes → Option ReadError → Consumer α) :
    ReadResult → Consumer α
  | .ok [] => next got.reverse.flatten none
  | .ok out => .gather (limit.map (· - out.length)) (out :: got) next
  | .error e =>
    if e.kind = .interrupted then .gather limit got next else next got.reverse.flatten (some e)

/-- Read everything, or up to `limit` bytes if there is one. -/
def collect (limit : Option Nat) (next : Bytes → Option ReadError → Consumer α) : Consumer α :=
  .gather limit [] next

end Consumer

/-- How far a consumer got. -/
inductive Progress (α : Type) where
  | finished (a : α)
  /-- It waits in a read of at most `n` bytes. -/
  | waiting (n : Nat) (next : ReadResult → Consumer α)
  /-- It pauses, for longer than the request waits. -/
  | asleep (next : Consumer α)

namespace Progress

/-- What the consumer left behind, if it has let go of the stream. -/
def result? {α : Type} : Progress α → Option α
  | finished a => some a
  | _ => none

end Progress

/-- A stream in the hands of a consumer, and how far that got. -/
structure Handover (α : Type) where
  progress : Progress α
  stream : Stream
  /-- For how many milliseconds the request is still willing to wait. -/
  patience : Nat

namespace Consumer

/-- Run a consumer as far as it gets by itself. -/
def drive {α : Type} (patience : Nat) (s : Stream) : Consumer α → Program (Handover α)
  | done a => return ⟨.finished a, s.release, patience⟩
  | read n next =>
    match s.read n with
    | (.ok out, s) => (next (.ok out)).drive patience s
    | (.error e, s) =>
      if e.kind = .pending then return ⟨.waiting n next, s, patience⟩
      else (next (.error e)).drive patience s
  | gather limit got next =>
    let r := s.gather chunk limit
    let got := r.bytes :: got
    let left := limit.map (· - r.bytes.length)
    if r.error.any fun e => e.kind = .pending then
      return ⟨.waiting (Stream.nextSize chunk left) (gathered left got next), r.stream, patience⟩
    else (next got.reverse.flatten r.error).drive patience r.stream
  | pause ms next =>
    if s.barrier = .pending ∧ patience ≤ ms then return ⟨.asleep next, s, 0⟩
    else next.drive (patience - ms) s
  | call c next => .call c fun r => (next r).drive patience s

end Consumer

namespace Handover

variable {α : Type}

/-- Go on after something has arrived, or after the source was closed. -/
def resume (h : Handover α) : Program (Handover α) :=
  match h.progress with
  | .waiting n next =>
    match h.stream.pull n with
    | (.ok out, s) => (next (.ok out)).drive h.patience s
    | (.error e, s) =>
      if e.kind = .pending then return { h with stream := s }
      else (next (.error e)).drive h.patience s
  | _ => return h

def wake (h : Handover α) : Program (Handover α) :=
  match h.progress with
  | .asleep next => next.drive h.patience h.stream
  | _ => return h

end Handover

end Depot
