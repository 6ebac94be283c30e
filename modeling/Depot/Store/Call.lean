import Depot.Filter
import Depot.Key
import Depot.StoreError

/-!
# Calls

The single operations that requests make on what lies outside of them: the catalog, the storage, and
the peer site. Each call is one atomic step. Writing an object takes three of them: the storage first
says how it will take in the payload, then stages the write, and at last puts the bytes in place.
-/

namespace Depot

/-- How a storage takes in a payload: it reads up to `first` bytes, or all of it, pauses, and then
goes on, crashes or fails. -/
structure Intake where
  first : Option Nat := none
  pause : Nat := 0
  crash : Option String := none
  failure : Option String := none
  /-- The count that the storage claims to have written. -/
  claim : Option Nat := none
  deriving DecidableEq, Repr

structure PeerRequest where
  url : String
  operationId : String
  acceptZstd : Bool
  clientId : Option String
  deriving DecidableEq, Repr

structure PeerAnswer where
  status : Nat
  headers : Headers
  body : Source
  deriving DecidableEq, Repr

inductive Call where
  | createBucket (record : BucketRecord)
  | getBucket (name : String)
  | listBuckets
  | setBucketStatus (name : String) (status : Status)
  | getObject (key : Key)
  | insertObject (record : ObjectRecord)
  | updateObject (record : ObjectRecord)
  | listObjects (bucket : String) (filter : Filter)
  | makeContainer (bucket : String)
  | intake (path : String)
  | stage (path : String)
  | put (path : String) (bytes : Bytes)
  | openBytes (path : String)
  | hasBytes (path : String)
  | eraseBytes (path : String)
  | eraseContainer (bucket : String)
  | fetch (request : PeerRequest)
  deriving DecidableEq, Repr

namespace Call

/-- What a call answers when it succeeds. A payload that the storage takes in at once needs no plan. -/
abbrev Answer : Call → Type
  | createBucket _ => Option Status
  | getBucket _ => Option BucketRecord
  | listBuckets => List BucketRecord
  | setBucketStatus _ _ => Unit
  | getObject _ => Option ObjectRecord
  | insertObject _ => Option Status
  | updateObject _ => Unit
  | listObjects _ _ => List ObjectRecord
  | makeContainer _ => Unit
  | intake _ => Option Intake
  | stage _ => Unit
  | put _ _ => Nat
  | openBytes _ => Source
  | hasBytes _ => Bool
  | eraseBytes _ => Unit
  | eraseContainer _ => Unit
  | fetch _ => PeerAnswer

end Call

/-- How a call comes back. -/
inductive Reply (α : Type) where
  | ok (a : α)
  | failed (e : StoreError)
  | crashed (message : String)
  deriving Repr

namespace Reply

def ofExcept {α : Type} : Except StoreError α → Reply α
  | .ok a => .ok a
  | .error e => .failed e

end Reply

end Depot
