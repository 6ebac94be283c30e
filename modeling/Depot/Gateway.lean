import Depot.Gateway.Metrics
import Depot.Gateway.Route
import Depot.Instant.Calendar
import Depot.Resource.Bucket
import Depot.Resource.Listing
import Depot.Resource.Remote
import Depot.Transfer.Service

/-!
# The gateway

What is answered to a request. Its route and method decide: buckets and records are looked up or changed
at once, objects and listings are transfers. An upload may stay open while its payload arrives, so an
exchange has two stages: `start`, and after it `arrive` or `conclude`. Every answer carries the date and
the name of the server, and an answer to a `HEAD` request has no payload.
-/

namespace Depot

/-- What a gateway is set up with. -/
structure Gateway where
  site : String := "site-a"
  /-- Whether uploads without a declared hash are hashed. -/
  digest : Bool := true
  settings : Settings := {}
  /-- The address of the peer site, empty if there is none. -/
  peerUrl : String := ""
  /-- Whether the counters are exposed. -/
  metrics : Bool := true
  deriving DecidableEq, Repr

structure Request where
  method : Method
  target : String
  headers : Headers := {}
  body : Source := .ofBytes []
  deriving DecidableEq, Repr

/-- What is made new for a request: the ids that it may use, the moment, and the number of its worker. -/
structure Fresh where
  operationId : String
  recordId : String
  now : Instant
  worker : Nat := 0
  deriving DecidableEq, Repr

namespace Fresh

/-- What is made of random bytes, sixteen for each id. The id of a record is a random one of version four. -/
def ofRandom (operation record : Bytes) (now : Instant) (worker : Nat) : Fresh where
  operationId := Base32.encode operation
  recordId :=
    let record := record.modify 6 fun b => b % 16 + 0x40
    Text.hex (record.modify 8 fun b => b % 64 + 0x80)
  now
  worker

end Fresh

/-- An answer, with the transfer that it ends and the bytes that this one brought. -/
structure Outcome where
  answer : Answer
  transfer : Option TransferKind := none
  received : Nat := 0

/-- A request at a gateway. -/
structure Exchange where
  gateway : Gateway
  request : Request
  fresh : Fresh
  counters : Metrics := []
  /-- In which headers list attributes. -/
  order : Metadata.Order := .byName

/-- An upload whose payload is still arriving. -/
structure OpenUpload where
  context : ObjectResource.Context
  session : Session
  key : Key
  upload : Upload ObjectResource.State ObjectResource.Written

namespace OpenUpload

/-- The upload with a further piece of its payload, or with its end. -/
def extend (u : OpenUpload) (piece : Option Source.Piece) : OpenUpload :=
  let stream := u.upload.stream.mapSource fun s =>
    match piece with
    | some p => s.append p
    | none => s.close
  { u with upload := { u.upload with stream } }

end OpenUpload

/-- How far an exchange got. -/
inductive Stage where
  | answered (o : Outcome)
  | uploading (u : OpenUpload)

namespace Exchange

/-- The operation id of an answer outside of a transfer. -/
def operationId (x : Exchange) : String :=
  Session.operationIdOf x.request.headers x.fresh.operationId

/-- The answer to a request that is refused outside of a transfer. -/
def reject (x : Exchange) (e : TransferError) : Answer :=
  Answer.ofError e x.operationId x.gateway.settings.moduleName

def answerWith {α : Type} (x : Exchange) (a : Action Unit α) (f : α → Answer) : Program Answer := do
  match (← a.start ()).1 with
  | .ok value => return f value
  | .error (.refused e) => return x.reject e
  | .error (.crashed message) =>
    return x.reject (.internal s!"catalog worker failed: {workerCrash x.fresh.worker message}")

def json (x : Exchange) (status : Nat) (value : Json) : Answer where
  status
  fields := [(Header.contentType, jsonType), (Header.operationId, x.operationId)]
  payload := .json value

/-- The answer to whether something exists. -/
def found (x : Exchange) (kind : ObjectResource.Kind) : Answer where
  status := if kind = .nothing then 404 else 204
  fields := [(Header.itemType, kind.name), (Header.operationId, x.operationId)]

def deleted (x : Exchange) : Answer where
  status := 204
  fields := [(Header.operationId, x.operationId)]

def plain (status : Nat) (mediaType text : String) : Answer where
  status
  fields := [(Header.contentType, mediaType)]
  payload := .text text

def healthy : Answer where
  status := 200
  fields := [(Header.contentType, jsonType)]
  payload := .json (.object [("status", .string "ok")])

def textType : String := "text/plain; charset=utf-8"

def countersAnswer (x : Exchange) : Answer :=
  if x.gateway.metrics then plain 200 "text/plain; version=0.0.4" x.counters.text
  else plain 404 textType "metrics are disabled"

def session (x : Exchange) (direction : Direction) : Session :=
  let h := x.request.headers
  match direction with
  | .upload =>
    .setup h .upload (((h.text? Header.size).bind Text.size?).getD 0) (h.text? Header.hash) false
      x.fresh.operationId
  | .download => .setup h .download 0 none false x.fresh.operationId

/-- What is fixed for a request for an object. -/
def context (x : Exchange) : ObjectResource.Context :=
  ⟨x.gateway.site, x.gateway.digest, x.fresh.recordId, x.fresh.now, x.order⟩

def outcomeOf (x : Exchange) (kind : TransferKind) (session : Session) (received : Nat) (e : Ending) :
    Outcome where
  answer := e.toAnswer session x.gateway.settings.moduleName x.fresh.worker
  transfer := some kind
  received

/-- Answer with a payload, if there is one. -/
def download {ρ ι ω κ : Type} (x : Exchange) (h : Hooks ρ ι ω κ) (input : ι) (resource : ρ) :
    Program Outcome := do
  let session := x.session .download
  let (e, _) ← Download.pull h x.gateway.settings session input x.request.headers resource
  return x.outcomeOf .download session 0 e

/-- Answer with the payload of an object, or with its record if the client takes JSON. -/
def readObject (x : Exchange) (k : Key) : Program Outcome := do
  if x.request.headers.hasToken Header.accept jsonType then
    return { answer := ← x.answerWith (ObjectResource.info k) fun r => x.json 200 r.toJson }
  else x.download (ObjectResource.hooks x.context) k {}

/-- Answer with the payload of an object of the peer site. -/
def readReplica (x : Exchange) (k : Key) : Program Outcome :=
  let session := x.session .download
  x.download (RemoteResource.hooks ⟨x.gateway.peerUrl, session.operationId, session.compressOut,
    x.request.headers.text? Header.clientId⟩ x.order) k {}

def listObjects (x : Exchange) (bucket : String) : Program Outcome := do
  let session := x.session .download
  let query : ListingResource.Query := ⟨bucket, .ofHeaders x.request.headers⟩
  let (e, _) ← Download.pullList ListingResource.hooks x.gateway.settings session query ()
  return x.outcomeOf .list session 0 e

/-- How far an upload got. The consumer of one that has ended is let go on by itself. -/
def uploadStage (x : Exchange) (u : OpenUpload)
    (r : Option Ending × Upload ObjectResource.State ObjectResource.Written) : Program Stage := do
  match r with
  | (none, upload) => return .uploading { u with upload }
  | (some e, upload) =>
    let upload ← upload.linger
    return .answered (x.outcomeOf .upload u.session upload.received e)

def createObject (x : Exchange) (k : Key) : Program Stage := do
  let session := x.session .upload
  let r ← Upload.begin' (ObjectResource.hooks x.context) x.gateway.settings session k
    (.ofHeaders x.request.headers) x.request.body
  x.uploadStage ⟨x.context, session, k, r.2⟩ r

def serveBucket (x : Exchange) (bucket : String) : Program Answer := do
  if x.request.method = .put then
    x.answerWith (BucketResource.create bucket x.gateway.site x.fresh.now) fun r => x.json 201 r.toJson
  else match checkBucketName bucket with
    | .error e => return x.reject e
    | .ok () =>
      match x.request.method with
      | .head => x.answerWith (ObjectResource.hasBucket bucket) fun b =>
          x.found (if b then .bucket else .nothing)
      | .delete => x.answerWith (BucketResource.delete bucket) fun _ => x.deleted
      | _ => x.answerWith (BucketResource.info bucket) fun r => x.json 200 r.toJson

def serveObject (x : Exchange) (k : Key) : Program Stage := do
  match x.request.method with
  | .post => x.createObject k
  | .head => return .answered { answer := ← x.answerWith (ObjectResource.kindOf k) x.found }
  | .delete =>
    return .answered { answer := ← x.answerWith (ObjectResource.delete k) fun _ => x.deleted }
  | _ => return .answered (← x.readObject k)

/-- Answer a request for a route that takes its method. -/
def serve (x : Exchange) (route : Route) : Program Stage := do
  match route with
  | .health => return .answered { answer := healthy }
  | .metrics => return .answered { answer := x.countersAnswer }
  | .buckets =>
    let answer ← x.answerWith BucketResource.list fun l => x.json 200 (.array (l.map (·.toJson)))
    return .answered { answer }
  | .bucket b => return .answered { answer := ← x.serveBucket b }
  | .objects b =>
    match checkBucketName b with
    | .error e => return .answered { answer := x.reject e }
    | .ok () => return .answered (← x.listObjects b)
  | .object b n =>
    match Key.parse b n with
    | .error e => return .answered { answer := x.reject e }
    | .ok k => x.serveObject k
  | .replica b n =>
    match Key.parse b n with
    | .error e => return .answered { answer := x.reject e }
    | .ok k => return .answered (← x.readReplica k)

/-- The answer as it is sent: with what every answer carries, and without a payload if none was
asked for. -/
def finish (x : Exchange) (a : Answer) : Answer where
  status := a.status
  fields := (a.fields.insert Header.date x.fresh.now.messageText).insert Header.server Answer.gatewayName
  payload := if x.request.method = .head then .empty else a.payload

def finishStage (x : Exchange) : Stage → Stage
  | .answered o => .answered { o with answer := x.finish o.answer }
  | s => s

def start (x : Exchange) : Program Stage := do
  match Route.ofPath? (Route.pathOf x.request.target) with
  | none => return x.finishStage (.answered { answer := { status := 404 } })
  | some route =>
    if !route.methods.contains x.request.method then
      let allowed := ",".intercalate (route.methods.map Method.name)
      return x.finishStage (.answered { answer := { status := 405, fields := [(Header.allow, allowed)] } })
    else match route.decode with
      | .error part =>
        let text := "Invalid URL: Invalid UTF-8 in `" ++ part ++ "`"
        return x.finishStage (.answered { answer := plain 400 textType text })
      | .ok route => return x.finishStage (← x.serve route)

/-- Let an open upload go on with a piece of its payload, or with its end. -/
def arrive (x : Exchange) (u : OpenUpload) (piece : Option Source.Piece) : Program Stage := do
  let u := u.extend piece
  let r ← Upload.advance (ObjectResource.hooks u.context) x.gateway.settings u.session u.key u.upload
  return x.finishStage (← x.uploadStage u r)

/-- Bring an open upload to its end, whatever has arrived. Its consumer may still wait for more. -/
def expire (x : Exchange) (u : OpenUpload) : Program (Outcome × OpenUpload) := do
  let (e, upload) ← Upload.conclude (ObjectResource.hooks u.context) x.gateway.settings u.session u.key
    u.upload
  let upload ← upload.linger
  let o := x.outcomeOf .upload u.session upload.received e
  return ({ o with answer := x.finish o.answer }, { u with upload })

/-- Bring an open upload to its end, whatever has arrived. -/
def conclude (x : Exchange) (u : OpenUpload) : Program Outcome := do return (← x.expire u).1

/-- Answer a request whose payload is there. -/
def run (x : Exchange) : Program Outcome := do
  match ← x.start with
  | .answered o => return o
  | .uploading u => x.conclude u

/-- The counters after an exchange whose answer sent a payload; of the bytes sent, those of a stream
count. -/
def count (x : Exchange) (o : Outcome) (payload : Bytes) (m : Metrics) : Metrics :=
  let sent := match o.answer.payload with
    | .stream _ => payload.length
    | _ => 0
  let path := Route.pathOf x.request.target
  let kind := Metrics.pathKind path
  let method := x.request.method.name
  let m := match o.transfer with
    | some t => m.add (Metrics.transfers t o.answer.status) 1
    | none => m
  let m := (m.add Metrics.received o.received).add Metrics.sent sent
  if path = "/metrics" then m
  else (m.add (Metrics.requests method kind o.answer.status) 1).add (Metrics.timed method kind) 1

end Exchange

end Depot
