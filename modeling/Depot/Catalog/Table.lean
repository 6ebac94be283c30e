import Depot.Filter
import Depot.Key
import Depot.StoreError

/-!
# The catalog in tables

Buckets and objects as rows of two tables, in no particular order. States, times and attributes are
columns of text: a time keeps its milliseconds only, and one whose text cannot be read back is lost.
Sizes are columns of sixty-four bits with a sign. A name start is compared character by character up
to the first NUL.
-/

namespace Depot

namespace Table

/-- A row of the table of buckets. -/
structure BucketRow where
  name : String
  site : String
  status : String
  creation : Option String
  deriving DecidableEq, Repr

/-- A row of the table of objects. -/
structure ObjectRow where
  bucket : String
  name : String
  id : String
  site : String
  hash : Option String
  status : String
  creation : Option String
  expires : Option String
  size : Nat
  metadata : String
  deriving DecidableEq, Repr

/-- Sizes are below this bound. -/
def sizeBound : Nat := 0x8000000000000000

namespace BucketRow

def ofRecord (r : BucketRecord) : BucketRow where
  name := r.name
  site := r.site
  status := r.status.name
  creation := r.creation.map (·.millisText)

def toRecord (row : BucketRow) : BucketRecord where
  name := row.name
  site := row.site
  status := Status.parse row.status
  creation := row.creation.bind Instant.parse?

end BucketRow

namespace ObjectRow

def ofRecord (r : ObjectRecord) : ObjectRow where
  bucket := r.bucket
  name := r.name
  id := r.id
  site := r.site
  hash := r.hash
  status := r.status.name
  creation := r.creation.map (·.millisText)
  expires := r.expires.map (·.millisText)
  size := r.size
  metadata := r.metadata.toJson.compact

def toRecord (row : ObjectRow) : ObjectRecord where
  bucket := row.bucket
  name := row.name
  id := row.id
  site := row.site
  hash := row.hash
  status := Status.parse row.status
  creation := row.creation.bind Instant.parse?
  expires := row.expires.bind Instant.parse?
  size := row.size
  metadata := Metadata.ofText row.metadata

/-- Whether a row has a primary key. -/
def hasKey (row : ObjectRow) (bucket name : String) : Bool :=
  row.bucket == bucket && row.name == name

end ObjectRow

/-- The characters of a column before the first NUL. -/
def leading (s : String) : List Char := s.toList.takeWhile (· ≠ Char.ofNat 0)

/-- Whether a column begins with a text: whether as many of its characters as the text has are that
text. -/
def startsWith (s start : String) : Bool :=
  ((leading s).take (leading start).length) == start.toList

end Table

structure Table where
  buckets : List Table.BucketRow := []
  objects : List Table.ObjectRow := []
  deriving DecidableEq, Repr

namespace Table

def bucketRow? (t : Table) (name : String) : Option BucketRow := t.buckets.find? (·.name == name)

def objectRow? (t : Table) (bucket name : String) : Option ObjectRow :=
  t.objects.find? (·.hasKey bucket name)

/-- Add a bucket, or replace the row of a replaceable one. -/
def createBucket (t : Table) (r : BucketRecord) : Option Status × Table :=
  match t.bucketRow? r.name with
  | some row =>
    if (Status.parse row.status).isReplaceable then
      let change (o : BucketRow) := if o.name == r.name then .ofRecord r else o
      (none, { t with buckets := t.buckets.map change })
    else (some (Status.parse row.status), t)
  | none => (none, { t with buckets := t.buckets ++ [.ofRecord r] })

def getBucket (t : Table) (name : String) : Option BucketRecord :=
  (t.bucketRow? name).map (·.toRecord)

def listBuckets (t : Table) : List BucketRecord :=
  (t.buckets.mergeSort fun a b => a.name ≤ b.name).map (·.toRecord)

def setBucketStatus (t : Table) (name : String) (s : Status) : Except StoreError Unit × Table :=
  match t.bucketRow? name with
  | some _ =>
    let change (o : BucketRow) := if o.name == name then { o with status := s.name } else o
    (.ok (), { t with buckets := t.buckets.map change })
  | none => (.error (.bucketMissing name), t)

def getObject (t : Table) (k : Key) : Option ObjectRecord :=
  (t.objectRow? k.bucket k.name).map (·.toRecord)

/-- Write a row in place of the one with its primary key. -/
def putObject (t : Table) (row : ObjectRow) : Table :=
  { t with objects := t.objects.filter (fun o => !o.hasKey row.bucket row.name) ++ [row] }

def insertObject (t : Table) (r : ObjectRecord) : Except StoreError (Option Status) × Table :=
  let add : Except StoreError (Option Status) × Table :=
    if r.size < sizeBound then (.ok none, t.putObject (.ofRecord r))
    else (.error .sizeOutOfRange, t)
  if (t.bucketRow? r.bucket).bind (fun row => Status.parse? row.status) = some .ready then
    match t.objectRow? r.bucket r.name with
    | some row =>
      if (Status.parse row.status).isReplaceable then add
      else (.ok (some (Status.parse row.status)), t)
    | none => add
  else (.error (.bucketMissing r.bucket), t)

def updateObject (t : Table) (r : ObjectRecord) : Except StoreError Unit × Table :=
  if r.size < sizeBound then
    match t.objectRow? r.bucket r.name with
    | some _ =>
      let change (o : ObjectRow) := if o.hasKey r.bucket r.name then .ofRecord r else o
      (.ok (), { t with objects := t.objects.map change })
    | none => (.error (.objectMissing r.bucket r.name), t)
  else (.error .sizeOutOfRange, t)

def listObjects (t : Table) (bucket : String) (f : Filter) : List ObjectRecord :=
  let rows := t.objects.filter fun o =>
    o.bucket == bucket && startsWith o.name (f.nameStart.getD "")
  ((rows.mergeSort fun a b => a.name ≤ b.name).map (·.toRecord)).filter f.accepts

end Table

end Depot
