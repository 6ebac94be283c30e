import Depot.Catalog.Memory
import Depot.Catalog.Table

/-!
# Catalogs

A catalog keeps the records of buckets and objects, in memory or in tables. Both kinds answer the
same operations.
-/

namespace Depot

inductive Catalog where
  | memory (c : MemoryCatalog)
  | table (t : Table)
  deriving DecidableEq, Repr

namespace Catalog

def open' (engine : String) : Except StoreError Catalog :=
  if engine = "sqlite" then .ok (.table {})
  else if engine = "memory" then .ok (.memory {})
  else .error (.unknownEngine engine)

/-- The catalog after it was closed and opened again: tables on a disk are kept. -/
def reopen (c : Catalog) (onDisk : Bool) : Catalog :=
  match c with
  | memory _ => memory {}
  | table t => table (if onDisk then t else {})

/-- Add a bucket, unless one of the name is in the way, whose state is then the answer. -/
def createBucket (c : Catalog) (r : BucketRecord) : Option Status × Catalog :=
  match c with
  | memory c => let (a, c) := c.createBucket r; (a, memory c)
  | table t => let (a, t) := t.createBucket r; (a, table t)

def getBucket : Catalog → String → Option BucketRecord
  | memory c => c.getBucket
  | table t => t.getBucket

/-- Whether a bucket exists and is ready. -/
def hasBucket (c : Catalog) (name : String) : Bool :=
  (c.getBucket name).any fun r => r.status == .ready

/-- All buckets, by name. -/
def listBuckets : Catalog → List BucketRecord
  | memory c => c.listBuckets
  | table t => t.listBuckets

def setBucketStatus (c : Catalog) (name : String) (s : Status) : Except StoreError Unit × Catalog :=
  match c with
  | memory c => let (a, c) := c.setBucketStatus name s; (a, memory c)
  | table t => let (a, t) := t.setBucketStatus name s; (a, table t)

def getObject : Catalog → Key → Option ObjectRecord
  | memory c => c.getObject
  | table t => t.getObject

/-- Add an object to a ready bucket, unless one of the name is in the way, whose state is then the
answer. -/
def insertObject (c : Catalog) (r : ObjectRecord) : Except StoreError (Option Status) × Catalog :=
  match c with
  | memory c => let (a, c) := c.insertObject r; (a, memory c)
  | table t => let (a, t) := t.insertObject r; (a, table t)

def updateObject (c : Catalog) (r : ObjectRecord) : Except StoreError Unit × Catalog :=
  match c with
  | memory c => let (a, c) := c.updateObject r; (a, memory c)
  | table t => let (a, t) := t.updateObject r; (a, table t)

/-- The objects of a bucket that a filter accepts, by name. -/
def listObjects : Catalog → String → Filter → List ObjectRecord
  | memory c => c.listObjects
  | table t => t.listObjects

end Catalog

end Depot
