import Depot.Record
import Depot.Transfer.Download
import Depot.Transfer.Upload

/-!
# Objects

Objects live in the catalog and the storage. An upload first registers a record in state `upload`;
then the payload is written, and the record becomes `ready` once size and hash are known, or
`uploadFailed` whenever the upload does not get that far. Downloads serve `ready` objects only.
Deleting goes through `deleting` to `deleted`, or to `deletionFailed` when the storage refuses.
-/

namespace Depot

namespace ObjectResource

/-- How writing a payload ended. -/
inductive Written where
  | stored (bytes : Nat)
  | refused (e : StoreError)
  | crashed
  deriving DecidableEq, Repr

/-- What is fixed for a request: the site, whether payloads are hashed, the id and the time of a record
that it may create, and the order in which its headers list attributes. -/
structure Context where
  site : String
  digest : Bool
  recordId : String
  now : Instant
  order : Metadata.Order := .byName

structure State where
  /-- The attributes of a new object. -/
  metadata : Metadata := []
  expires : Option Instant := none
  /-- The record that an upload registered, or that a download found. -/
  record : Option ObjectRecord := none
  /-- How writing ended, until an answer has taken it up. -/
  writer : Option Written := none
  /-- Whether the record has reached its final state. -/
  settled : Bool := true

/-- The state of a request with the given headers, which may state attributes of a new object. -/
def State.ofHeaders (h : Headers) : State :=
  let declared := ObjectRecord.ofHeaders h
  { metadata := declared.metadata, expires := declared.expires }

/-- Put the first bytes and what follows them in place. -/
def put (path : String) (claim : Option Nat) (bytes : Bytes) : Consumer Written :=
  .call (.put path bytes) fun
    | .ok n => .done (.stored (claim.getD n))
    | .failed e => .done (.refused e)
    | .crashed _ => .done .crashed

/-- Stage a write, read what is left of the stream, and put everything in place. -/
def store (path : String) (claim : Option Nat) (first : Bytes) : Consumer Written :=
  .call (.stage path) fun
    | .ok () => .collect none fun rest error =>
      match error with
      | none => put path claim (first ++ rest)
      | some e => .done (.refused (.io e))
    | .failed e => .done (.refused e)
    | .crashed _ => .done .crashed

/-- Write a stream to the storage. -/
def write (path : String) : Consumer Written :=
  .call (.intake path) fun
    | .failed e => .done (.refused e)
    | .crashed _ => .done .crashed
    | .ok none => store path none []
    | .ok (some plan) => .collect plan.first fun first error =>
      match error with
      | some e => .done (.refused (.io e))
      | none => .pause plan.pause <|
        match plan.crash, plan.failure with
        | some _, _ => .done .crashed
        | none, some m => .done (.refused (.unavailable m))
        | none, none => store path plan.claim first

/-- Mark the record of an upload that did not get to its end; that this fails is of no consequence. -/
def markFailed : Action State Unit := do
  let s ← get
  if !s.settled then
    match s.record with
    | none => set { s with settled := true }
    | some r =>
      let r := r.turn .uploadFailed
      set { s with settled := true, record := some r }
      discard (Action.attempt (.updateObject r))

/-- Whether a bucket exists and is ready. -/
def hasBucket {ρ : Type} (name : String) : Action ρ Bool := do
  return (← Action.call (.getBucket name)).any fun r => r.status == .ready

def bucketMissing (bucket : String) : TransferError := .notFound s!"bucket not found: {bucket}"

def newRecord (c : Context) (s : State) (k : Key) : ObjectRecord where
  id := c.recordId
  site := c.site
  bucket := k.bucket
  name := k.name
  status := .upload
  creation := some c.now
  expires := s.expires
  metadata := s.metadata

/-- Register an upload, and write its payload in the storage's way. -/
def accept (c : Context) (k : Key) (write : String → Consumer Written := write) :
    Action State (Consumer Written) := do
  if !(← hasBucket k.bucket) then Action.refuse (bucketMissing k.bucket)
  let r := newRecord c (← get) k
  modify fun s => { s with metadata := [] }
  match ← Action.call (.insertObject r) with
  | some .upload => Action.refuse (.notAcceptable s!"object already in creation: {k.path}")
  | some t => Action.refuse (.alreadyExists s!"object already exists: {k.path}, status {t.name}")
  | none =>
    modify fun s => { s with record := some r, settled := false }
    return write k.path

def noUpload : TransferError := .invalidState "no upload in progress"

/-- Make the record of an upload ready. -/
def answer (hash : Option String) (size : Nat) : Action State ObjectRecord := do
  let s ← get
  set { s with writer := none }
  match s.writer with
  | none => Action.refuse noUpload
  | some (.refused _) =>
    markFailed
    Action.refuse (.internal "storage write failed")
  | some .crashed =>
    markFailed
    Action.refuse (.internal "storage writer panicked")
  | some (.stored _) =>
    match s.record with
    | none => Action.refuse noUpload
    | some r =>
      let r := { r with hash, size, status := .ready }
      modify fun s => { s with record := some r }
      Action.call (.updateObject r)
      modify fun s => { s with settled := true }
      return r

/-- Find the record of an object that can be downloaded. -/
def readable (k : Key) : Action State Bool := do
  match ← Action.call (.getObject k) with
  | none => return false
  | some r =>
    if r.status ≠ .ready then return false
    if !(← Action.call (.hasBytes k.path)) then return false
    modify fun s => { s with record := some r }
    return true

/-- The hooks of objects; `write` is how the storage writes a stream. -/
def hooks (c : Context) (write : String → Consumer Written := write) :
    Hooks State Key ObjectRecord Written where
  wantsDigest _ := return c.digest
  accept k := accept c k write
  deliver w s := { s with writer := some w }
  answer _ := answer
  answerFields _ _ _ r := return r.toFields c.order
  answerJson r := r.toJson.sorted
  readable k _ := readable k
  payload k := do return { outlet := .bare (← Action.call (.openBytes k.path)) }
  payloadFields _ := do
    let fields := ((← get).record.map (·.toFields c.order)).getD []
    return Fields.insert fields Header.contentType octetsType
  errorFields k _ := return k.fields
  release := markFailed

/-! ## Operations without a payload -/

/-- What a key designates. -/
inductive Kind where
  | nothing
  | bucket
  | directory
  | object
  deriving DecidableEq, Repr

def Kind.name : Kind → String
  | nothing => "NONE"
  | bucket => "BUCKET"
  | directory => "DIRECTORY"
  | object => "OBJECT"

/-- Whether a key names a ready object, a directory of ready objects, or nothing. -/
def kindOf (k : Key) : Action Unit Kind := do
  if !(← hasBucket k.bucket) then return .nothing
  if (← Action.call (.getObject k)).any fun r => r.status == .ready then return .object
  let below : Filter := { nameStart := some (k.name ++ "/"), statuses := [.ready] }
  return if (← Action.call (.listObjects k.bucket below)).isEmpty then .nothing else .directory

/-- The record of an object, whatever its state. -/
def info (k : Key) : Action Unit ObjectRecord := do
  match ← Action.call (.getObject k) with
  | some r => return r
  | none => Action.refuse (.notFound s!"object not found: {k.path}")

def erase (k : Key) (r : ObjectRecord) : Action Unit ObjectRecord := do
  Action.call (.updateObject (r.turn .deleting))
  match ← Action.attempt (.eraseBytes k.path) with
  | .ok () =>
    Action.call (.updateObject (r.turn .deleted))
    return r.turn .deleted
  | .error _ =>
    Action.call (.updateObject (r.turn .deletionFailed))
    Action.refuse (.internal "storage delete failed")

/-- Delete an object. Failed uploads and failed deletions can be deleted as well. -/
def delete (k : Key) : Action Unit ObjectRecord := do
  let r ← info k
  match r.status with
  | .ready | .uploadFailed | .deletionFailed => erase k r
  | .deleted => Action.refuse (.deleted s!"object already deleted: {k.path}")
  | t => Action.refuse (.conflict s!"object cannot be deleted: {k.path}, status {t.name}")

end ObjectResource

end Depot
