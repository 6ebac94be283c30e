import Depot.Transfer.Hooks

/-!
# Uploads

An upload prepares the stream as the session says, has the resource admit it, and waits until the
backend has consumed it. Then the resource answers with the hash and the size. Whatever fails, the
barrier of the stream is fired before the request is over: a stream that was never read, or was read
to its end, is given up, and any other is drained.

The wait is where a request may stay for long, so an upload comes in two parts, `begin'` and
`conclude`; a payload that is still arriving can be appended in between.
-/

namespace Depot

structure Upload (ρ κ : Type) where
  resource : ρ
  stream : Stream
  /-- How far the consumer got, once the upload was admitted. -/
  progress : Option (Progress κ) := none
  patience : Nat
  digest : Bool := false
  received : Nat := 0

namespace Upload

variable {ρ ι ω κ α : Type}

/-- Run a hook of the resource. -/
def hook (a : Action ρ α) : Action (Upload ρ κ) α :=
  Action.zoom (·.resource) (fun r u => { u with resource := r }) a

def setStream (s : Stream) : Action (Upload ρ κ) Unit := modify fun u => { u with stream := s }

/-- Ask for a stage of the stream. -/
def enable (stage : Stream → Except TransferError Stream) : Action (Upload ρ κ) Unit := do
  setStream (← Action.ofExcept (stage (← get).stream))

/-- Take over what has become of the stream and its consumer. -/
def adopt (h : Handover κ) : Action (Upload ρ κ) Unit :=
  modify fun u => { u with stream := h.stream, progress := some h.progress, patience := h.patience }

/-- The stream with its consumer, if the upload was admitted. -/
def handover? (u : Upload ρ κ) : Option (Handover κ) :=
  u.progress.map fun p => ⟨p, u.stream, u.patience⟩

def prepare (h : Hooks ρ ι ω κ) (session : Session) (input : ι) : Action (Upload ρ κ) Unit := do
  if session.decompressIn then enable Stream.enableDecompress
  let digest ← if session.declaredHash.isNone then hook (h.wantsDigest input) else pure false
  if digest then enable Stream.enableDigest
  modify fun u => { u with digest := digest }

/-- Prepare the stream, have the upload admitted, and let the consumer run as far as it gets. -/
def accept (h : Hooks ρ ι ω κ) (session : Session) (input : ι) : Action (Upload ρ κ) Unit := do
  prepare h session input
  let consumer ← hook (h.accept input)
  let u ← get
  adopt (← Action.ofProgram (consumer.drive u.patience u.stream))

/-- Take note of the size of a payload, and of what the consumer left behind. -/
def receive (h : Hooks ρ ι ω κ) (size : Nat) (u : Upload ρ κ) : Upload ρ κ :=
  { u with
    received := size
    resource := match u.progress.bind (·.result?) with
      | some k => h.deliver k u.resource
      | none => u.resource }

/-- The hash of a payload: computed, or as it was declared. -/
def finalHash (session : Session) : Action (Upload ρ κ) (Option String) := do
  let u ← get
  if u.digest then return some (← Action.ofExcept u.stream.digest) else return session.declaredHash

/-- The answer to an upload that was consumed. -/
def respond (h : Hooks ρ ι ω κ) (session : Session) (input : ι) (hash : Option String) (size : Nat) :
    Action (Upload ρ κ) Answer := do
  let output ← hook (h.answer input hash size)
  let fields ← hook (h.answerFields input hash size output)
  return {
    status := 201
    fields := session.finishFields (fields.insert Header.contentType jsonType)
    payload := .json (h.answerJson output) }

/-- Wait for the stream, and have the resource answer. -/
def complete (h : Hooks ρ ι ω κ) (settings : Settings) (session : Session) (input : ι) :
    Action (Upload ρ κ) Answer := do
  let (outcome, stream) := (← get).stream.waitFor settings.responseTimeout
  setStream stream
  let size ← Action.ofExcept outcome
  modify (receive h size)
  respond h session input (← finalHash session) size

/-- What becomes of a stream whose transfer failed: what was begun and not read to the end is drained,
anything else is given up. -/
def abandon (settings : Settings) (s : Stream) : Stream :=
  if s.started && !s.isComplete then (s.drainFor settings.maxWait).2 else s.abort.2

def fail (h : Hooks ρ ι ω κ) (settings : Settings) (session : Session) (input : ι)
    (e : TransferError) : Action (Upload ρ κ) Answer := do
  modify fun u => { u with stream := abandon settings u.stream }
  let fields ← hook (h.errorFields input e.status)
  return session.errorAnswer settings.moduleName e fields

/-- End an upload: answer a failure, let go of the resource, and give up a stream that is still
pending. -/
def finish (h : Hooks ρ ι ω κ) (settings : Settings) (session : Session) (input : ι)
    (r : Except Trouble Answer × Upload ρ κ) : Program (Ending × Upload ρ κ) := do
  let (ending, u) ← match r with
    | (.ok a, u) => pure (Ending.answered a, u)
    | (.error (.crashed m), u) => pure (Ending.crashed m, u)
    | (.error (.refused e), u) => do
      let (a, u) ← (fail h settings session input e).start u
      pure (match a with
        | .ok a => Ending.failed e a
        | .error (.crashed m) => .crashed m
        | .error (.refused e) => .failed e { status := e.status }, u)
  let (released, u) ← (hook h.release).start u
  return (ending.andThen released, { u with stream := u.stream.abort.2 })

/-- Go on with an admitted upload until its end. -/
def conclude (h : Hooks ρ ι ω κ) (settings : Settings) (session : Session) (input : ι)
    (u : Upload ρ κ) : Program (Ending × Upload ρ κ) := do
  finish h settings session input (← (complete h settings session input).start u)

/-- Begin an upload: it has ended already, or waits for its consumer. -/
def begin' (h : Hooks ρ ι ω κ) (settings : Settings) (session : Session) (input : ι)
    (resource : ρ) (body : Source) : Program (Option Ending × Upload ρ κ) := do
  let u : Upload ρ κ :=
    { resource, stream := .ofSource body, patience := settings.responseTimeout }
  if session.direction = .upload then
    match ← (accept h session input).start u with
    | (.ok (), u) =>
      match u.progress with
      | some (.waiting _ _) =>
        if u.stream.barrier = .pending then return (none, u)
        else
          let (e, u) ← conclude h settings session input u
          return (some e, u)
      | _ =>
        let (e, u) ← conclude h settings session input u
        return (some e, u)
    | (.error t, u) =>
      let (e, u) ← finish h settings session input (.error t, u)
      return (some e, u)
  else
    let u := { u with stream := u.stream.abort.2 }
    let (e, u) ← finish h settings session input
      (.error (.refused (.invalidState "upload on a download session")), u)
    return (some e, u)

/-- Let the consumer go on with what has arrived meanwhile; conclude the upload if that ends it. -/
def advance (h : Hooks ρ ι ω κ) (settings : Settings) (session : Session) (input : ι)
    (u : Upload ρ κ) : Program (Option Ending × Upload ρ κ) := do
  match u.handover? with
  | none => return (none, u)
  | some handover =>
    let handover ← handover.resume
    let u := { u with stream := handover.stream, progress := some handover.progress }
    if u.stream.barrier = .pending then return (none, u)
    else
      let (e, u) ← conclude h settings session input u
      return (some e, u)

def run (h : Hooks ρ ι ω κ) (settings : Settings) (session : Session) (input : ι) (resource : ρ)
    (body : Source) : Program (Ending × Upload ρ κ) := do
  match ← begin' h settings session input resource body with
  | (some e, u) => return (e, u)
  | (none, u) => conclude h settings session input u

/-- Let a consumer that outlived its upload go on. -/
def linger (u : Upload ρ κ) : Program (Upload ρ κ) := do
  match u.handover? with
  | none => return u
  | some handover =>
    let handover ← (← handover.resume).wake
    return { u with stream := handover.stream, progress := some handover.progress }

end Upload

end Depot
