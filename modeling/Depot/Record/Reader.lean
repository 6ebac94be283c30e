import Depot.Record

/-!
# Reading records

A record is read from a JSON object, or from an array of its fields in their order. Fields that the
record does not have are passed over; a field that stands twice, and a missing one without a default,
are faults.
-/

namespace Depot.ObjectRecord

open Json (Reader)
open Json.Reader

/-- The fields read so far. -/
structure Draft where
  id : Option String := none
  site : Option String := none
  bucket : Option String := none
  name : Option String := none
  hash : Option (Option String) := none
  status : Option Status := none
  creation : Option (Option Instant) := none
  expires : Option (Option Instant) := none
  size : Option Nat := none
  metadata : Option Metadata := none

namespace Draft

/-- The record, if no field without a default is missing. -/
def finish (d : Draft) : Reader ObjectRecord := do
  match d.id, d.site, d.bucket, d.name, d.status, d.size with
  | some id, some site, some bucket, some name, some status, some size =>
    return {
      id, site, bucket, name, status, size
      hash := d.hash.join, creation := d.creation.join, expires := d.expires.join
      metadata := d.metadata.getD [] }
  | _, _, _, _, _, _ => fail .mistyped

end Draft

def readTime : Reader Instant := do
  match Instant.parseRelaxed? (← string) with
  | some t => return t
  | none => fail .mistyped

def readStatusName : Reader Status := do
  match Status.ofName? (← string) with
  | some s => return s
  | none => fail .mistyped

/-- A state: its name, or an object with that one name and nothing under it. -/
def readStatus : Reader Status := do
  match ← peek with
  | some '"' => readStatusName
  | some '\x7b' =>
    advance
    let s ← readStatusName
    colon
    match ← peek with
    | some 'n' => literal "null"
    | some c => mistyped c
    | none => fail .truncated
    match ← peek with
    | some '\x7d' => advance
    | some _ => fail .malformed
    | none => fail .truncated
    return s
  | some _ => fail .malformed
  | none => fail .truncated

def readSize : Reader Nat := natural Text.wordBound

def readMetadata : Reader Metadata := SortedMap.ofList <$> stringMap

/-- Read the value of a field that was not read before. -/
def once {α : Type} (old : Option α) (r : Reader α) : Reader (Option α) := do
  if old.isSome then fail .mistyped
  colon
  some <$> r

def readField (name : String) (d : Draft) : Reader Draft := do
  match name with
  | "id" => return { d with id := ← once d.id string }
  | "site" => return { d with site := ← once d.site string }
  | "bucket" => return { d with bucket := ← once d.bucket string }
  | "name" => return { d with name := ← once d.name string }
  | "hash" => return { d with hash := ← once d.hash (optional string) }
  | "status" => return { d with status := ← once d.status readStatus }
  | "creation" => return { d with creation := ← once d.creation (optional readTime) }
  | "expires" => return { d with expires := ← once d.expires (optional readTime) }
  | "size" => return { d with size := ← once d.size readSize }
  | "metadata" => return { d with metadata := ← once d.metadata readMetadata }
  | _ => colon; skipValue; return d

/-- Read the next item of an array, if there is one. -/
def nextItem {α : Type} (first : Bool) (r : Reader α) : Reader (Option α) := do
  if ← hasItem first then some <$> r else return none

/-- Read the next item of an array, which must be there. -/
def needItem {α : Type} (first : Bool) (r : Reader α) : Reader α := do
  match ← nextItem first r with
  | some a => return a
  | none => fail .mistyped

def readItems : Reader ObjectRecord := do
  let id ← needItem true string
  let site ← needItem false string
  let bucket ← needItem false string
  let name ← needItem false string
  let hash ← nextItem false (optional string)
  let status ← needItem false readStatus
  let creation ← nextItem false (optional readTime)
  let expires ← nextItem false (optional readTime)
  let size ← needItem false readSize
  let metadata ← nextItem false readMetadata
  return {
    id, site, bucket, name, status, size
    hash := hash.join, creation := creation.join, expires := expires.join
    metadata := metadata.getD [] }

def reader : Reader ObjectRecord := do
  match ← peek with
  | none => fail .truncated
  | some '\x7b' =>
    advance
    let d ← fields stringBody readField ((← get).length + 1) true {}
    let r ← d.finish
    advance
    return r
  | some '[' =>
    advance
    let r ← readItems
    match ← peek with
    | some ']' => advance; return r
    | some _ => fail .malformed
    | none => fail .truncated
  | some c => mistyped c

def ofText (s : String) : Except Json.Fault ObjectRecord := reader.run s

end Depot.ObjectRecord
