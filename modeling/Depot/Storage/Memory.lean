import Depot.SortedMap
import Depot.StoreError

/-!
# Storage in memory

Bytes under keys, with an optional limit on their total number. A counter of sixty-four bits keeps that number:
every change takes off it what goes and adds what comes.
-/

namespace Depot

/-- How many bytes there are under all keys. -/
def totalSize (objects : SortedMap String Bytes) : Nat := objects.foldr (fun e n => e.2.length + n) 0

/-- Storage in memory. A limit of zero is none. -/
structure MemoryStorage where
  objects : SortedMap String Bytes := []
  limit : Nat := 0
  /-- How many bytes are stored, without adding them up. -/
  counter : UInt64 := .ofNat (totalSize objects)
  deriving DecidableEq, Repr

namespace MemoryStorage

def used (s : MemoryStorage) : Nat := s.counter.toNat

/-- The number of bytes under a key, zero if there are none. -/
def sizeAt (s : MemoryStorage) (key : String) : UInt64 :=
  .ofNat (((SortedMap.get? s.objects key).map List.length).getD 0)

/-- What the counter comes to when bytes take the place of those under a key. -/
def projected (s : MemoryStorage) (key : String) (bytes : Bytes) : UInt64 :=
  s.counter - s.sizeAt key + .ofNat bytes.length

/-- Put bytes under a key, in place of what was there, unless that exceeds the limit. -/
def put (s : MemoryStorage) (key : String) (bytes : Bytes) : Except StoreError Nat × MemoryStorage :=
  let needed := s.projected key bytes
  if s.limit ≠ 0 ∧ s.limit < needed.toNat then (.error (.limitExceeded needed.toNat s.limit), s)
  else (.ok bytes.length, { s with objects := SortedMap.insert s.objects key bytes, counter := needed })

def get (s : MemoryStorage) (key : String) : Except StoreError Bytes :=
  match SortedMap.get? s.objects key with
  | some bytes => .ok bytes
  | none => .error (.bytesMissing key)

def has (s : MemoryStorage) (key : String) : Bool := (SortedMap.get? s.objects key).isSome

def erase (s : MemoryStorage) (key : String) : MemoryStorage :=
  { s with objects := SortedMap.erase s.objects key, counter := s.counter - s.sizeAt key }

/-- The number of bytes in the container of a bucket. -/
def freed (s : MemoryStorage) (bucket : String) : UInt64 :=
  (s.objects.filter fun e => (bucket ++ "/").toList.isPrefixOf e.1.toList).foldl
    (fun n e => n + .ofNat e.2.length) 0

def eraseBucket (s : MemoryStorage) (bucket : String) : MemoryStorage :=
  { s with
    objects := s.objects.filter fun e => !(bucket ++ "/").toList.isPrefixOf e.1.toList
    counter := s.counter - s.freed bucket }

end MemoryStorage

end Depot
