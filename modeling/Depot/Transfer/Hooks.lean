import Depot.Answer
import Depot.Consumer
import Depot.Session

/-!
# Hooks

What a resource brings to a transfer: whether a request is admitted, where the payload goes or comes
from, and which headers describe it. The engine decides in which order hooks are called. Their types
are the resource's own state `ρ`, the key of a request `ι`, the answer to an upload `ω`, and what its
consumer leaves behind `κ`.
-/

namespace Depot

/-- The settings that all transfers share. -/
structure Settings where
  /-- For how many milliseconds an upload waits for the backend. -/
  responseTimeout : Nat := 300000
  /-- For how many milliseconds a failed upload is drained. -/
  maxWait : Nat := 1000
  /-- The size of the pieces in which answers are sent. -/
  bufferSize : Nat := 131072
  compressionLevel : Int := 0
  /-- The name that failed requests report. -/
  moduleName : String := "accessor"
  deriving DecidableEq, Repr

/-- Where the payload of a download comes from. -/
structure PullSource where
  outlet : Outlet
  /-- Whether its bytes are compressed already. -/
  compressed : Bool := false

/-- What a resource brings to a transfer. -/
structure Hooks (ρ ι ω κ : Type) where
  /-- Whether an upload without a declared hash is hashed. -/
  wantsDigest : ι → Action ρ Bool
  /-- Admit an upload; the backend then consumes the stream. -/
  accept : ι → Action ρ (Consumer κ)
  /-- Take note of what the consumer left behind. -/
  deliver : κ → ρ → ρ
  /-- The answer to an upload that was consumed, given its hash and its size. -/
  answer : ι → Option String → Nat → Action ρ ω
  answerFields : ι → Option String → Nat → ω → Action ρ Fields
  answerJson : ω → Json
  /-- Whether there is something to download. -/
  readable : ι → Headers → Action ρ Bool
  payload : ι → Action ρ PullSource
  payloadFields : ι → Action ρ Fields
  /-- The headers of a failed request, given its status. -/
  errorFields : ι → Nat → Action ρ Fields
  /-- What remains to be done when the request is over. -/
  release : Action ρ Unit

namespace Hooks

def uploadUnsupported : TransferError := .notAcceptable "upload is not supported here"

end Hooks

/-- How a transfer ends: answered, failed with an answer that says so, or not at all. -/
inductive Ending where
  | answered (a : Answer)
  | failed (e : TransferError) (a : Answer)
  | crashed (message : String)

namespace Ending

def answer? : Ending → Option Answer
  | answered a | failed _ a => some a
  | crashed _ => none

/-- The ending after the resource was let go of, which may crash too. -/
def andThen (e : Ending) : Except Trouble Unit → Ending
  | .error (.crashed message) => crashed message
  | _ => e

end Ending

namespace Session

/-- The headers that every successful answer carries beside the given ones. -/
def finishFields (s : Session) (f : Fields) : Fields :=
  let f := f.insert Header.operationId s.operationId
  if s.keepAlive then f else f.insert Header.connection "close"

/-- The answer to a failed request. What the engine reports replaces what a hook put in its place. -/
def errorAnswer (s : Session) (moduleName : String) (e : TransferError) (f : Fields) : Answer where
  status := e.status
  fields := (((f.insert Header.operationId s.operationId).insert Header.error
    (headerSafe e.message)).insert Header.moduleName moduleName).insert Header.connection "close"

end Session

end Depot
