import Depot.Stream

/-!
# Reading a stream

The ways in which backends read a stream: to its end, or up to a number of bytes. Interrupted reads
are made again.
-/

namespace Depot.Stream

/-- What reading several times led to. -/
structure Reading where
  bytes : Bytes
  /-- The error that put an end to it. -/
  error : Option ReadError
  stream : Stream

/-- A bound on the reads with a buffer of `n` bytes that are not the end. -/
def weight (s : Stream) (n : Nat) : Nat := (s.pipeline.weight + 1) * (131072 / (n + 1) + 2)

/-- How much the next read asks for, given how much is wanted at all. -/
def nextSize (size : Nat) (limit : Option Nat) : Nat := min size (limit.getD size)

/-- Read on; `got` holds the pieces read so far, the last one first. -/
def gatherLoop (size : Nat) : Nat → Option Nat → List Bytes → Stream → Reading
  | 0, _, got, s => ⟨got.reverse.flatten, some (Codec.stuck false), s⟩
  | fuel + 1, limit, got, s =>
    if limit = some 0 then ⟨got.reverse.flatten, none, s⟩
    else match s.read (nextSize size limit) with
      | (.ok [], s) => ⟨got.reverse.flatten, none, s⟩
      | (.ok out, s) => gatherLoop size fuel (limit.map (· - out.length)) (out :: got) s
      | (.error e, s) =>
        if e.kind = .interrupted then gatherLoop size fuel limit got s
        else ⟨got.reverse.flatten, some e, s⟩

/-- Read in pieces of at most `size` bytes until the end is reached, or `limit` bytes are there. -/
def gather (s : Stream) (size : Nat) (limit : Option Nat) : Reading :=
  gatherLoop size (s.weight size + limit.getD 0) limit [] s

def readToEnd (s : Stream) : Reading := s.gather 65536 none

/-- Read until `n` bytes are there or the end is reached. -/
def readUpTo (s : Stream) (n : Nat) : Reading := s.gather n (some n)

end Depot.Stream
