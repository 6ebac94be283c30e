import Depot.Filter
import Depot.Key
import Depot.StoreError

/-!
# The catalog in memory

Buckets and objects in sorted maps. A name is taken over only where the entry is replaceable, and
objects are added only to buckets that are ready.
-/

namespace Depot

structure MemoryCatalog where
  buckets : SortedMap String BucketRecord := []
  objects : SortedMap Key ObjectRecord := []
  deriving DecidableEq, Repr

namespace ObjectRecord

def key (r : ObjectRecord) : Key := ⟨r.bucket, r.name⟩

end ObjectRecord

namespace MemoryCatalog

def createBucket (c : MemoryCatalog) (r : BucketRecord) : Option Status × MemoryCatalog :=
  match (SortedMap.get? c.buckets r.name).map (·.status) with
  | some s =>
    if s.isReplaceable then (none, { c with buckets := SortedMap.insert c.buckets r.name r })
    else (some s, c)
  | none => (none, { c with buckets := SortedMap.insert c.buckets r.name r })

def getBucket (c : MemoryCatalog) (name : String) : Option BucketRecord :=
  SortedMap.get? c.buckets name

def listBuckets (c : MemoryCatalog) : List BucketRecord := c.buckets.map (·.2)

def setBucketStatus (c : MemoryCatalog) (name : String) (s : Status) :
    Except StoreError Unit × MemoryCatalog :=
  match SortedMap.get? c.buckets name with
  | some r =>
    (.ok (), { c with buckets := SortedMap.insert c.buckets name { r with status := s } })
  | none => (.error (.bucketMissing name), c)

def getObject (c : MemoryCatalog) (k : Key) : Option ObjectRecord := SortedMap.get? c.objects k

def insertObject (c : MemoryCatalog) (r : ObjectRecord) :
    Except StoreError (Option Status) × MemoryCatalog :=
  if (SortedMap.get? c.buckets r.bucket).map (·.status) = some .ready then
    match (SortedMap.get? c.objects r.key).map (·.status) with
    | some s =>
      if s.isReplaceable then
        (.ok none, { c with objects := SortedMap.insert c.objects r.key r })
      else (.ok (some s), c)
    | none => (.ok none, { c with objects := SortedMap.insert c.objects r.key r })
  else (.error (.bucketMissing r.bucket), c)

def updateObject (c : MemoryCatalog) (r : ObjectRecord) : Except StoreError Unit × MemoryCatalog :=
  match SortedMap.get? c.objects r.key with
  | some _ => (.ok (), { c with objects := SortedMap.insert c.objects r.key r })
  | none => (.error (.objectMissing r.bucket r.name), c)

def listObjects (c : MemoryCatalog) (bucket : String) (f : Filter) : List ObjectRecord :=
  (c.objects.filter fun e => e.1.bucket == bucket && f.accepts e.2).map (·.2)

end MemoryCatalog

end Depot
