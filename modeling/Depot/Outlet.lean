import Depot.Stream

/-!
# Outlets

The bytes of an answer: a bare source, a source that is compressed on its way out, or a transform
stream. Whoever sends the answer pumps the outlet: it reads buffers of one size until the end or an error, and
sends a frame for each.
-/

namespace Depot

/-- The bytes of an answer. -/
inductive Outlet where
  | bare (source : Source)
  | compressed (pipeline : Pipeline)
  | transformed (stream : Stream)

namespace Outlet

def compressing (s : Source) : Outlet :=
  .compressed (Pipeline.build { source := s, stages := { compress := true } })

def read (o : Outlet) (n : Nat) : ReadResult × Outlet :=
  match o with
  | bare s => let (r, s) := s.read n; (r, bare s)
  | compressed p => let (r, p) := p.readBuilt n; (r, compressed p)
  | transformed s => let (r, s) := s.read n; (r, transformed s)

/-- A bound on the reads with a buffer of `n` bytes that are not the end. -/
def weight (o : Outlet) (n : Nat) : Nat :=
  let pieces := match o with
    | bare s => s.weight
    | compressed p => p.weight
    | transformed s => s.pipeline.weight
  (pieces + 1) * (131072 / (n + 1) + 2)

end Outlet

/-! ## Pumps -/

/-- A frame of a payload that is sent: bytes, or the error that breaks it off. -/
abbrev Frame := ReadResult

/-- Whoever sends an outlet in frames, each read into a buffer of its own. -/
structure Pump where
  outlet : Outlet
  /-- The size of the buffers. -/
  size : Nat
  /-- The number of bytes sent. -/
  sent : Nat := 0
  ended : Bool := false

namespace Pump

/-- A buffer of zeros into which bytes were read. -/
def filled (size : Nat) (out : Bytes) : Bytes := out ++ List.replicate (size - out.length) 0

/-- A read, and the frame that it gives: the buffer, cut to what was read. The end and an error end the pump, and
an interrupted read is made again. -/
def round (p : Pump) : Option Frame × Pump :=
  match p.outlet.read p.size with
  | (.ok [], outlet) => (none, { p with outlet, ended := true })
  | (.ok out, outlet) =>
    (some (.ok ((filled p.size out).take out.length)), { p with outlet, sent := p.sent + out.length })
  | (.error e, outlet) =>
    if e.kind = .interrupted then (none, { p with outlet }) else (some (.error e), { p with outlet, ended := true })

/-- Go on until the end, after these frames, the last one first. -/
def run : Nat → List Frame → Pump → List Frame × Pump
  | 0, frames, p => ((.error (Codec.stuck false) :: frames).reverse, p)
  | fuel + 1, frames, p =>
    let (frame, p) := p.round
    let frames := frame.toList ++ frames
    if p.ended then (frames.reverse, p) else run fuel frames p

end Pump

namespace Outlet

/-- The frames in which an outlet is sent, and the pump at its end. -/
def pump (o : Outlet) (n : Nat) : List Frame × Pump := Pump.run (o.weight n) [] { outlet := o, size := n }

/-- Send everything in buffers of `n` bytes: what was sent before the end, or before an error that is
not an interruption. -/
def send (o : Outlet) (n : Nat) : Bytes × Option ReadError :=
  let frames := (o.pump n).1
  (frames.flatMap ReadResult.bytes, frames.findSome? ReadResult.error?)

end Outlet
end Depot
