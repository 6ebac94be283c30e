import Depot.Stream.Reading
import Depot.Transfer.Download
import Depot.Transfer.Upload

/-!
# Scripted resources

A resource that behaves as a script says, and keeps a log of the hooks that were called. It takes the
engine through its paths without a store behind it.
-/

namespace Depot

namespace Scripted

inductive HookName where
  | wantsDigest
  | accept
  | answer
  | answerFields
  | readable
  | payload
  | payloadFields
  | errorFields
  deriving DecidableEq, Repr

/-- A call of a hook, with its details. -/
structure HookCall where
  hook : HookName
  details : Option Json := none

/-- Which hooks of an upload the resource has. Those that it lacks refuse, or add nothing. -/
inductive Variant where
  | full
  | pullOnly
  /-- Admission only. -/
  | withoutAnswer
  /-- Admission and answer only. -/
  | withoutFields
  deriving DecidableEq, Repr

/-- How the consumer reads: all of the stream or a first part of it, and the rest after a pause. -/
structure Reading where
  first : Option Nat := none
  pause : Option Nat := none

/-- Where a download comes from. -/
structure Content where
  source : Source := ⟨[], false⟩
  transform : Bool := false
  decompress : Bool := false
  digest : Bool := false
  /-- How many bytes were read before the engine gets the stream. -/
  preread : Nat := 0
  compressed : Bool := false

/-- What a consumer got to read. -/
structure Consumed where
  bytes : Bytes
  error : Option ReadError

end Scripted

open Scripted in
/-- The behaviour of a scripted resource. -/
structure Script where
  variant : Variant := .full
  digest : Bool := true
  push : Except TransferError Reading := .ok {}
  answer : Option TransferError := none
  answerFields : Except TransferError Fields := .ok []
  readable : Except TransferError Bool := .ok true
  payload : Except TransferError Content := .ok {}
  payloadFields : Except TransferError Fields := .ok []
  errorFields : Fields := []
  crash : Option HookName := none

namespace Script

open Scripted

abbrev Log := List HookCall

/-- Note the call of a hook, and crash if it is to. -/
def note (s : Script) (hook : HookName) (details : Option Json) : Action Log Unit := do
  modify (· ++ [⟨hook, details⟩])
  if s.crash = some hook then Action.crash "hook exploded"

def consumer (r : Reading) : Consumer Consumed :=
  .collect r.first fun bytes error =>
    match error, r.pause with
    | none, some ms => .pause ms (.collect none fun more error => .done ⟨bytes ++ more, error⟩)
    | error, _ => .done ⟨bytes, error⟩

/-- The payload as the engine gets it. -/
def pullSource (p : Content) : PullSource :=
  let staged (on : Bool) (stage : Stream → Except TransferError Stream) (s : Stream) : Stream :=
    if on then (stage s).toOption.getD s else s
  let stream := staged p.digest Stream.enableDigest
    (staged p.decompress Stream.enableDecompress (.ofSource p.source))
  { outlet :=
      if p.transform then
        .transformed (if p.preread = 0 then stream else (stream.readUpTo p.preread).stream)
      else .bare p.source
    compressed := p.compressed }

def textJson : Option String → Json
  | some s => .string s
  | none => .null

/-- The hooks of a scripted resource. An upload is answered with its key, its hash and its size. -/
def hooks (s : Script) : Hooks Log String (String × Option String × Nat) Consumed where
  wantsDigest _ :=
    if s.variant = .full then do
      s.note .wantsDigest none
      return s.digest
    else return false
  accept _ :=
    if s.variant = .pullOnly then Action.refuse Hooks.uploadUnsupported
    else do
      s.note .accept none
      return consumer (← Action.ofExcept s.push)
  deliver _ log := log
  answer input hash size :=
    if s.variant = .full ∨ s.variant = .withoutFields then do
      s.note .answer (some (.array [textJson hash, .number size]))
      match s.answer with
      | some e => Action.refuse e
      | none => return (input, hash, size)
    else Action.refuse Hooks.uploadUnsupported
  answerFields _ hash size output :=
    if s.variant = .full then do
      s.note .answerFields (some (.array [textJson hash, .number size, .number output.2.2]))
      Action.ofExcept s.answerFields
    else return []
  answerJson output := .object [("hash", textJson output.2.1), ("input", .string output.1),
    ("size", .number output.2.2)]
  readable _ h := do
    s.note .readable (some (.number h.lines.length))
    Action.ofExcept s.readable
  payload _ := do
    s.note .payload none
    return pullSource (← Action.ofExcept s.payload)
  payloadFields _ := do
    s.note .payloadFields none
    Action.ofExcept s.payloadFields
  errorFields input status := do
    s.note .errorFields (some (.array [.string input, .number status]))
    return s.errorFields
  release := return ()

end Script

end Depot
