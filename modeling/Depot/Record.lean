import Depot.Header
import Depot.Instant.Reader
import Depot.Json.Reader
import Depot.SortedMap
import Depot.Status

/-!
# Records

The entries of the catalog: buckets, and objects with their life cycle. A record travels as JSON and,
an object's, as a block of headers beside its bytes.
-/

namespace Depot

/-- The attributes that a client attaches to an object. They are kept in the order of their names, and JSON lists
them so; a header lists them in a `Metadata.Order`. -/
abbrev Metadata := SortedMap String String

/-- The entry of a bucket. -/
structure BucketRecord where
  name : String := ""
  site : String := ""
  status : Status := .ready
  creation : Option Instant := none
  deriving DecidableEq, Repr

/-- The entry of an object. -/
structure ObjectRecord where
  id : String := ""
  site : String := ""
  bucket : String := ""
  name : String := ""
  /-- The digest of the plain contents, once known. -/
  hash : Option String := none
  status : Status := .unknown
  creation : Option Instant := none
  expires : Option Instant := none
  size : Nat := 0
  metadata : Metadata := []
  deriving DecidableEq, Repr

namespace Metadata

/-- An order in which a header lists attributes. It may be any: the same attributes need not be listed alike on two
sites, or in two requests. -/
structure Order where
  list : Metadata → List (String × String)
  perm (m : Metadata) : (list m).Perm m

/-- The order of the names. -/
def Order.byName : Order := ⟨id, .refl⟩

def toJson (m : Metadata) : Json := .object (m.map fun e => (e.1, .string e.2))

/-- The text of attributes in a header, the empty one if there are none. -/
def text (m : Metadata) (order : Order := .byName) : String :=
  if m.isEmpty then "" else (toJson (order.list m)).compact

/-- The attributes that a JSON text lists, none if it does not list any. -/
def ofText (s : String) : Metadata :=
  match Json.Reader.stringMap.run s with
  | .ok entries => SortedMap.ofList entries
  | .error _ => []

end Metadata

/-- A JSON field that may be missing. -/
def Json.optionalField (name : String) (value : Option String) : List (String × Json) :=
  (value.map fun s => (name, Json.string s)).toList

namespace BucketRecord

def toJson (r : BucketRecord) : Json :=
  .object ([("name", .string r.name), ("site", .string r.site), ("status", .string r.status.name)] ++
    Json.optionalField "creation" (r.creation.map (·.fullText)))

end BucketRecord

namespace ObjectRecord

def turn (r : ObjectRecord) (t : Status) : ObjectRecord := { r with status := t }

def toJson (r : ObjectRecord) : Json :=
  .object ([("id", .string r.id), ("site", .string r.site), ("bucket", .string r.bucket),
      ("name", .string r.name)] ++
    Json.optionalField "hash" r.hash ++ [("status", .string r.status.name)] ++
    Json.optionalField "creation" (r.creation.map (·.fullText)) ++
    Json.optionalField "expires" (r.expires.map (·.fullText)) ++
    [("size", .number r.size)] ++
    (if r.metadata.isEmpty then [] else [("metadata", r.metadata.toJson)]))

/-- The record as a block of headers; empty values are left out. -/
def toFields (r : ObjectRecord) (order : Metadata.Order := .byName) : Fields :=
  [(Header.recordId, r.id), (Header.site, r.site), (Header.bucket, r.bucket), (Header.name, r.name),
    (Header.hash, r.hash.getD ""), (Header.status, r.status.name),
    (Header.creation, (r.creation.map (·.millisText)).getD ""),
    (Header.expires, (r.expires.map (·.millisText)).getD ""), (Header.size, toString r.size),
    (Header.metadata, r.metadata.text order)].filter
      fun e => e.2 ≠ ""

/-- The record that a block of headers describes. What is missing or cannot be read keeps its
default. -/
def ofHeaders (h : Headers) : ObjectRecord where
  id := (h.text? Header.recordId).getD ""
  site := (h.text? Header.site).getD ""
  bucket := (h.text? Header.bucket).getD ""
  name := (h.text? Header.name).getD ""
  hash := h.text? Header.hash
  status := ((h.text? Header.status).bind Status.parse?).getD .unknown
  creation := (h.text? Header.creation).bind Instant.parse?
  expires := (h.text? Header.expires).bind Instant.parse?
  size := ((h.text? Header.size).bind Text.size?).getD 0
  metadata := ((h.text? Header.metadata).map Metadata.ofText).getD []

end ObjectRecord

end Depot
