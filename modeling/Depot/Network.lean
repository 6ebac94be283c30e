import Depot.Startup
import Std.Http

/-!
# The network

The side of the program that touches the world. Requests that arrive over HTTP are put to a gateway; their
calls are performed one by one on a store that all requests share, and requests to the peer site go out.
-/

namespace Depot

open Std.Async

/-- A gateway that is up, with what its requests share. -/
structure Node where
  gateway : Gateway
  store : IO.Ref Store
  counters : IO.Ref Metrics

namespace Node

/-- The headers of a message that arrived. -/
def headersOf (h : Std.Http.Headers) : Headers :=
  .ofLines (h.toList.map fun e => (e.1.value, Bytes.ofText e.2.value))

/-- The headers that say where a payload ends. They go with the payload. -/
def framing : List String := [Header.contentLength, Header.transferEncoding]

/-- The headers of a message to send, but for those that say where its payload ends. -/
def ofFields (f : Fields) : Std.Http.Headers :=
  f.foldl (fun h e => if framing.contains e.1 then h else (h.insert? e.1 e.2).getD h) .empty

def resolve (host : String) (port : Nat) : Async Std.Net.SocketAddress := do
  let address (a : Std.Net.IPAddr) : Std.Net.SocketAddress :=
    match a with
    | .v4 a => .v4 ⟨a, port.toUInt16⟩
    | .v6 a => .v6 ⟨a, port.toUInt16⟩
  let bare := String.ofList (host.toList.filter fun c => c != '[' && c != ']')
  match Std.Net.IPv4Addr.ofString host, Std.Net.IPv6Addr.ofString bare with
  | some a, _ => return address (.v4 a)
  | none, some a => return address (.v6 a)
  | none, none =>
    let found ← try DNS.getAddrInfo host (toString port) catch _ => pure #[]
    match found[0]? with
    | some a => return address a
    | none => throw (.userError "failed to lookup address information: Name or service not known")

/-! ## Going out -/

/-- What has arrived of an answer. -/
structure Incoming where
  machine : Std.Http.Protocol.H1.Machine .sending
  head : Option Std.Http.Response.Head := none
  body : Array ByteArray := #[]
  isClosed : Bool := false
  failed : Bool := false
  ended : Bool := false

namespace Incoming

def note (i : Incoming) (e : Std.Http.Protocol.H1.Event .sending) : Incoming :=
  match e with
  | .endHeaders head => { i with head := some head }
  | .failed _ => { i with failed := true }
  | .closeBody => { i with ended := true }
  | _ => i

/-- Take in a piece of the payload that is there. -/
def pull? (i : Incoming) : Option Incoming :=
  if i.machine.canPullBody then
    match i.machine.pullBody with
    | (machine, some piece) =>
      some { i with machine, body := i.body.push piece.chunk.data, ended := piece.final }
    | (_, none) => none
  else none

end Incoming

/-- Go on until an answer has arrived. -/
partial def receive (socket : TCP.Socket.Client) (i : Incoming) : Async Incoming := do
  let (machine, result) := i.machine.step
  unless result.output.isEmpty do
    socket.send result.output.toByteArray
  let i := result.events.foldl Incoming.note { i with machine }
  if i.failed || i.ended then return i
  match i.pull? with
  | some i => receive socket i
  | none =>
    if i.isClosed then return { i with failed := true }
    else match ← socket.recv? 65536 with
      | some bytes => receive socket { i with machine := i.machine.feed bytes }
      | none => receive socket { i with machine := i.machine.noMoreInput, isClosed := true }

def ask (r : PeerRequest) (u : Url) : Async (Option PeerAnswer) := do
  try
    let socket ← TCP.Socket.Client.mk
    socket.connect (← resolve (u.host.getD "") (u.port.getD 80))
    let query := String.ofList (u.tail.toList.takeWhile (· != '#'))
    let some uri := Std.Http.RequestTarget.parse? (u.path ++ query) | return none
    let fields := [("host", u.host.getD ""), (Header.connection, "close")]
    let headers := (Peer.headersOf r).lines.filterMap fun l => (Bytes.text? l.2).map (l.1, ·)
    let head : Std.Http.Request.Head :=
      { method := .get, version := .v11, uri, headers := ofFields (fields ++ headers) }
    let machine : Std.Http.Protocol.H1.Machine .sending := { config := {} }
    let i ← receive socket { machine := (machine.send head).userClosedBody }
    return i.head.map fun head => {
      status := head.status.toCode.toNat
      headers := headersOf head.headers
      body := ⟨i.body.toList.map (fun b => .data b.toList) ++
        (if i.failed then [.failure ⟨.other, "error decoding response body", false⟩] else []), false⟩ }
  catch _ => return none

/-! ## Coming in -/

def perform (n : Node) (c : Call) : Async (Reply c.Answer) :=
  match c with
  | .fetch r => return .ofExcept (← Peer.fetch (ask r) r)
  | c => n.store.modifyGet fun s => s.perform c

def run {α : Type} (n : Node) : Program α → Async α
  | .done a => return a
  | .call c next => do n.run (next (← n.perform c))

def now : IO Instant := do
  let t := Std.Time.DateTime.ofTimestampWithZone (← Std.Time.Timestamp.now) .UTC
  match Instant.parse? (t.format "uuuu-MM-dd'T'HH:mm:ss.SSSSSSSSSXXX") with
  | some t => return t
  | none => throw (.userError "the clock is out of range")

/-- Let an exchange come to its end, its payload arriving piece by piece. -/
partial def finish (n : Node) (x : Exchange) (body : Std.Http.Body.Stream) : Stage → Async Outcome
  | .answered o => return o
  | .uploading u => do
    let piece ← try pure ((← body.recv).map fun c => Source.Piece.data c.data.toList)
      catch e => pure (some (.failure ⟨.other, toString e, false⟩))
    match piece, ← n.run (x.arrive u piece) with
    | none, .uploading u => n.run (x.conclude u)
    | _, stage => n.finish x body stage

/-- The payload to send, in chunks or of a known size. One that breaks off is closed before the end that
was announced. -/
def payload (bytes : Bytes) (inChunks complete : Bool) : Async Std.Http.Body.Any := do
  if complete && !inChunks then return .ofBody (← Std.Http.Body.Full.ofByteArray bytes.pack)
  else
    let stream ← Std.Http.Body.stream fun s => s.send ⟨bytes.pack, #[]⟩
    unless complete do
      stream.setKnownSize (some (.fixed (bytes.length + 1)))
    return .ofBody stream

/-- Answer a request. -/
def answer (n : Node) (r : Std.Http.Request Std.Http.Body.Stream) :
    Async (Std.Http.Response Std.Http.Body.Any) := do
  let fresh := Fresh.ofRandom (← IO.getRandomBytes 16).toList (← IO.getRandomBytes 16).toList (← now) 0
  let x : Exchange := {
    gateway := n.gateway
    request := {
      method := .ofName (toString r.line.method), target := toString r.line.uri
      headers := headersOf r.line.headers, body := { pieces := [], isOpen := true } }
    fresh, counters := ← n.counters.get }
  let o ← n.finish x r.body (← n.run x.start)
  let (bytes, failure) := o.answer.send n.gateway.settings.bufferSize
  n.counters.modify (x.count o bytes)
  let status := (Std.Http.Status.ofCode none o.answer.status.toUInt16).getD .internalServerError
  let inChunks := (o.answer.fields.get? Header.transferEncoding).isSome
  let body ← payload bytes inChunks failure.isNone
  return ⟨{ status, headers := ofFields o.answer.fields }, body, .empty⟩

instance : Std.Http.Server.Handler Node where
  onRequest n r := n.answer r

def listen (n : Node) (address : String) : Async (Except String Std.Http.Server) := do
  match hostAndPort address with
  | .error e => return .error e
  | .ok (host, port) =>
    try
      let config : Std.Http.Config := { serverName := none, generateDate := false, maxBodySize := 0x10000000000 }
      return .ok (← Std.Http.Server.serve (← resolve host port) n config)
    catch e => return .error (toString e)

end Node

end Depot
