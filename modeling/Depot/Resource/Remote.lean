import Depot.Resource.Object
import Depot.Segment

/-!
# Remote objects

Objects of the peer site, read through a request to it. A compressed payload is handed on as it is,
and a failure of the peer comes back with its status.
-/

namespace Depot

namespace RemoteResource

/-- What is fixed for a request: the address of the peer site, empty if there is none, and what is
handed on to it. -/
structure Context where
  peerUrl : String
  operationId : String
  acceptZstd : Bool
  clientId : Option String

/-- The state of a request: the peer's answer, until it is taken up, and the headers that it gave. -/
structure State where
  response : Option PeerAnswer := none
  fields : Fields := []

def objectUrl (peerUrl : String) (k : Key) : String :=
  let base := String.ofList ((peerUrl.toList.reverse.dropWhile (· == '/')).reverse)
  base ++ "/objects/" ++ Segment.encode k.bucket ++ "/" ++
    "/".intercalate ((Text.split '/' k.name).map Segment.encode)

def reasonPhrase? (status : Nat) : Option String :=
  [(100, "Continue"), (101, "Switching Protocols"), (102, "Processing"), (200, "OK"),
    (201, "Created"), (202, "Accepted"), (203, "Non Authoritative Information"),
    (204, "No Content"), (205, "Reset Content"), (206, "Partial Content"), (207, "Multi-Status"),
    (208, "Already Reported"), (226, "IM Used"), (300, "Multiple Choices"),
    (301, "Moved Permanently"), (302, "Found"), (303, "See Other"), (304, "Not Modified"),
    (305, "Use Proxy"), (307, "Temporary Redirect"), (308, "Permanent Redirect"),
    (400, "Bad Request"), (401, "Unauthorized"), (402, "Payment Required"), (403, "Forbidden"),
    (404, "Not Found"), (405, "Method Not Allowed"), (406, "Not Acceptable"),
    (407, "Proxy Authentication Required"), (408, "Request Timeout"), (409, "Conflict"),
    (410, "Gone"), (411, "Length Required"), (412, "Precondition Failed"),
    (413, "Payload Too Large"), (414, "URI Too Long"), (415, "Unsupported Media Type"),
    (416, "Range Not Satisfiable"), (417, "Expectation Failed"), (418, "I'm a teapot"),
    (421, "Misdirected Request"), (422, "Unprocessable Entity"), (423, "Locked"),
    (424, "Failed Dependency"), (425, "Too Early"), (426, "Upgrade Required"), (428, "Precondition Required"),
    (429, "Too Many Requests"), (431, "Request Header Fields Too Large"),
    (451, "Unavailable For Legal Reasons"), (500, "Internal Server Error"),
    (501, "Not Implemented"), (502, "Bad Gateway"), (503, "Service Unavailable"),
    (504, "Gateway Timeout"), (505, "HTTP Version Not Supported"),
    (506, "Variant Also Negotiates"), (507, "Insufficient Storage"), (508, "Loop Detected"),
    (510, "Not Extended"), (511, "Network Authentication Required")].lookup status

/-- A status code with its phrase. -/
def statusText (status : Nat) : String :=
  toString status ++ " " ++ (reasonPhrase? status).getD "<unknown status code>"

/-- Ask the peer for an object. Of the headers that it gave, those of a record are kept. -/
def readable (c : Context) (k : Key) (order : Metadata.Order := .byName) : Action State Bool := do
  if c.peerUrl.isEmpty then Action.refuse (.server 503 "no peer site configured")
  let request : PeerRequest :=
    { url := objectUrl c.peerUrl k, operationId := c.operationId, acceptZstd := c.acceptZstd,
      clientId := c.clientId }
  match ← Action.attempt (.fetch request) with
  | .error e => Action.refuse (.server 502 s!"peer site unreachable: {e.message}")
  | .ok (r : PeerAnswer) =>
    if r.status = 404 then return false
    if r.status < 200 ∨ 300 ≤ r.status then
      Action.refuse (.ofStatus r.status
        ((r.headers.text? Header.error).getD s!"peer site answered {statusText r.status}"))
    set { response := some r, fields := (ObjectRecord.ofHeaders r.headers).toFields order : State }
    return true

/-- Take up the peer's answer. -/
def payload : Action State PullSource := do
  match (← get).response with
  | none => Action.refuse (.invalidState "peer response already consumed")
  | some r =>
    modify fun s => { s with response := none }
    return {
      outlet := .bare r.body
      compressed := r.headers.hasToken Header.contentEncoding zstdToken }

/-- The hooks of remote objects, which take no uploads. -/
def hooks (c : Context) (order : Metadata.Order := .byName) : Hooks State Key Unit Unit where
  wantsDigest _ := return false
  accept _ := Action.refuse Hooks.uploadUnsupported
  deliver _ s := s
  answer _ _ _ := Action.refuse Hooks.uploadUnsupported
  answerFields _ _ _ _ := return []
  answerJson _ := .null
  readable k _ := readable c k order
  payload _ := payload
  payloadFields _ := do
    let s ← get
    set { s with fields := [] }
    return s.fields
  errorFields k _ := return k.fields
  release := return ()

end RemoteResource

end Depot
