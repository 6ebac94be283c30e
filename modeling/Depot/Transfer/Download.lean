import Depot.Transfer.Hooks

/-!
# Downloads

A download asks the resource for the payload and its headers, and settles the coding: the payload goes
out compressed if the client takes that or if it was compressed before, and it is compressed at most
once.
-/

namespace Depot.Download

variable {ρ ι ω κ : Type}

/-- The outlet of a payload that is to be compressed, or is to go out as it is. -/
def encode (source : PullSource) (compress : Bool) : Except TransferError Outlet :=
  match source.outlet, compress with
  | .transformed s, true => s.enableCompress.map .transformed
  | .bare s, true => .ok (.compressing s)
  | outlet, _ => .ok outlet

/-- The answer with the payload of a resource. -/
def streamOut (h : Hooks ρ ι ω κ) (session : Session) (input : ι) : Action ρ Answer := do
  if session.direction ≠ .download then
    Action.refuse (.invalidState "download on an upload session")
  let source ← h.payload input
  let fields ← h.payloadFields input
  let wanted := session.compressOut
  let fields :=
    if wanted || source.compressed then fields.insert Header.contentEncoding zstdToken else fields
  match encode source (wanted && !source.compressed) with
  | .error e => Action.refuse e
  | .ok outlet =>
    return {
      status := 200
      fields := session.finishFields (fields.insert Header.transferEncoding "chunked")
      payload := .stream outlet }

/-- End a download: answer a failure, and let go of the resource. -/
def finish (h : Hooks ρ ι ω κ) (settings : Settings) (session : Session) (input : ι)
    (r : Except Trouble Answer × ρ) : Program (Ending × ρ) := do
  let (ending, s) ← match r with
    | (.ok a, s) => pure (Ending.answered a, s)
    | (.error (.crashed m), s) => pure (Ending.crashed m, s)
    | (.error (.refused e), s) => do
      let (f, s) ← (h.errorFields input e.status).start s
      pure (match f with
        | .ok f => Ending.failed e (session.errorAnswer settings.moduleName e f)
        | .error (.crashed m) => .crashed m
        | .error (.refused e) => .failed e { status := e.status }, s)
  let (released, s) ← h.release.start s
  return (ending.andThen released, s)

def pull (h : Hooks ρ ι ω κ) (settings : Settings) (session : Session) (input : ι)
    (request : Headers) (resource : ρ) : Program (Ending × ρ) := do
  let attempt : Action ρ Answer := do
    if ← h.readable input request then streamOut h session input
    else Action.refuse (.notFound "Item not found")
  finish h settings session input (← attempt.start resource)

/-- Download a listing, which is there in any case. -/
def pullList (h : Hooks ρ ι ω κ) (settings : Settings) (session : Session) (input : ι)
    (resource : ρ) : Program (Ending × ρ) := do
  finish h settings session input (← (streamOut h session input).start resource)

end Depot.Download
