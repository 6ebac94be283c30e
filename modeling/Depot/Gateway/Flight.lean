import Depot.Gateway

/-!
# Requests in flight

A request whose payload arrives while others are served. Its upload goes on with every piece, and comes
to its end with the payload, or when the backend has not consumed it in time. In that case the consumer
may still wait for more, and goes on with what arrives afterwards.
-/

namespace Depot

structure Flight where
  exchange : Exchange
  stage : Stage
  /-- The upload that has ended before its payload did. -/
  late : Option OpenUpload := none

namespace Flight

def begin' (x : Exchange) : Program Flight := return { exchange := x, stage := ← x.start }

/-- Whether the upload goes on. -/
def isOpen (f : Flight) : Bool :=
  match f.stage with
  | .uploading _ => true
  | .answered _ => false

def arrive (f : Flight) (piece : Option Source.Piece) : Program Flight := do
  match f.stage, f.late with
  | .uploading u, _ => return { f with stage := ← f.exchange.arrive u piece }
  | .answered _, none => return f
  | .answered _, some u =>
    let u := u.extend piece
    return { f with late := some { u with upload := ← u.upload.linger } }

/-- Let time pass; an upload that has waited for long enough ends. -/
def elapse (ms : Nat) (f : Flight) : Program Flight := do
  match f.stage with
  | .answered _ => return f
  | .uploading u =>
    if u.upload.patience ≤ ms then
      let (o, u) ← f.exchange.expire u
      return { f with stage := .answered o, late := some u }
    else
      let upload := { u.upload with patience := u.upload.patience - ms }
      return { f with stage := .uploading { u with upload } }

/-- The outcome of the request, for which an upload ends whatever has arrived. -/
def outcome (f : Flight) : Program Outcome := do
  match f.stage with
  | .uploading u => f.exchange.conclude u
  | .answered o => return o

end Flight

end Depot
