import Depot.Text

/-!
# Headers

The header lines of a request, the header block of an answer, and the names that the gateway gives
to its own headers. A value is readable as text only when it is visible ASCII, blanks and tabs.
-/

namespace Depot

namespace Header

def operationId := "x-relaystore-op-id"
def error := "x-relaystore-error"
def moduleName := "x-relaystore-module"
def clientId := "x-relaystore-client-id"
def itemType := "x-relaystore-type"
def recordId := "x-relaystore-id"
def site := "x-relaystore-site"
def bucket := "x-relaystore-bucket"
def name := "x-relaystore-name"
def hash := "x-relaystore-hash"
def status := "x-relaystore-status"
def creation := "x-relaystore-creation"
def expires := "x-relaystore-expires"
def size := "x-relaystore-size"
def metadata := "x-relaystore-metadata"
def filterName := "x-relaystore-name-prefix"
def filterStatuses := "x-relaystore-statuses"
def filterCreationBefore := "x-relaystore-creation-before"
def filterCreationAfter := "x-relaystore-creation-after"
def filterSizeBelow := "x-relaystore-size-lt"
def filterSizeAbove := "x-relaystore-size-gt"
def accept := "accept"
def acceptEncoding := "accept-encoding"
def allow := "allow"
def connection := "connection"
def contentEncoding := "content-encoding"
def contentLength := "content-length"
def contentType := "content-type"
def date := "date"
def server := "server"
def transferEncoding := "transfer-encoding"

end Header

/-- The token of the one compression that is negotiated. -/
def zstdToken : String := "zstd"

def jsonType : String := "application/json"
def ndjsonType : String := "application/x-ndjson"
def octetsType : String := "application/octet-stream"

/-- The header lines of a request, in their order. Names are in lower case. -/
structure Headers where
  lines : List (String × Bytes) := []
  deriving DecidableEq, Repr

namespace Headers

def ofLines (lines : List (String × Bytes)) : Headers :=
  ⟨lines.map fun l => (Text.lower l.1, l.2)⟩

/-- A byte that makes a value readable. -/
def isReadable (b : UInt8) : Bool := (0x20 ≤ b && b < 0x7F) || b == 0x09

/-- The text of a value, when all of it is readable. -/
def readable? (value : Bytes) : Option String :=
  if value.all isReadable then some (String.ofList (value.map fun b => Char.ofNat b.toNat)) else none

/-- The values of a header, whose name may be in either case. -/
def values (h : Headers) (name : String) : List Bytes :=
  (h.lines.filter fun l => l.1 == Text.lower name).map (·.2)

/-- The first value of a header, trimmed, when it is readable and not blank. -/
def text? (h : Headers) (name : String) : Option String := do
  let value ← (h.values name).head?
  let s := Text.trim (← readable? value)
  if s.isEmpty then none else some s

/-- The entries of a comma-separated value, trimmed and without their parameters. -/
def entries (value : String) : List String :=
  (Text.split ',' value).map fun e => Text.trim ((Text.split ';' e).headD "")

/-- Whether some readable value of a header lists a token, whatever its case. -/
def hasToken (h : Headers) (name token : String) : Bool :=
  (h.values name).any fun value =>
    match readable? value with
    | some s => (entries s).any (Text.sameIgnoringCase · token)
    | none => false

end Headers

/-- The header block of an answer: at most one value for each name. -/
abbrev Fields := List (String × String)

namespace Fields

def get? (f : Fields) (name : String) : Option String := f.lookup name

/-- Put a value under a name, in place of an earlier one. -/
def insert (f : Fields) (name value : String) : Fields :=
  f.filter (fun e => e.1 != name) ++ [(name, value)]

/-- A block of the given entries, later ones in place of earlier ones. -/
def ofList (entries : List (String × String)) : Fields :=
  entries.foldl (fun f e => insert f e.1 e.2) []

/-- A character that may stand in the name of a header on the wire. -/
def isNameChar (c : Char) : Bool :=
  c.isAlphanum || "!#$%&'*+-.^_|~".toList.contains c || c == Char.ofNat 0x60

def validName (name : String) : Bool := !name.isEmpty && name.toList.all isNameChar

/-- Whether a value can be written on the wire: no control characters except tabs. -/
def validValue (value : String) : Bool :=
  value.toList.all fun c => (0x20 ≤ c.toNat && c.toNat != 0x7F) || c == '\t'

/-- The entries as they go over the wire: names in lower case, and without what cannot be
written. -/
def onWire (f : Fields) : Fields :=
  ofList ((f.filter fun e => validName e.1 && validValue e.2).map fun e => (Text.lower e.1, e.2))

def toHeaders (f : Fields) : Headers := ⟨f.map fun e => (e.1, Bytes.ofText e.2)⟩

end Fields

end Depot
