import Depot.Resource.Object

/-!
# Buckets

Buckets have the life cycle of objects. A bucket can be deleted when it holds nothing but the remains
of failed or deleted objects, which are then marked deleted; a deleted name can be created again.
-/

namespace Depot.BucketResource

/-- The states of objects that keep a bucket from being deleted. -/
def liveStatuses : List Status := [.ready, .upload, .deleting]

def create (name site : String) (now : Instant) : Action Unit BucketRecord := do
  match checkBucketName name with
  | .error e => Action.refuse e
  | .ok () => pure ()
  Action.call (.makeContainer name)
  let r : BucketRecord := { name, site, status := .ready, creation := some now }
  match ← Action.call (.createBucket r) with
  | none => return r
  | some _ => Action.refuse (.alreadyExists s!"bucket already exists: {name}")

/-- The record of a bucket that is not deleted. -/
def info (name : String) : Action Unit BucketRecord := do
  match ← Action.call (.getBucket name) with
  | none => Action.refuse (ObjectResource.bucketMissing name)
  | some r =>
    if r.status = .deleted then Action.refuse (.deleted s!"bucket deleted: {name}") else return r

/-- The ready buckets, by name. -/
def list : Action Unit (List BucketRecord) := do
  return (← Action.call .listBuckets).filter fun r => r.status == .ready

/-- Mark what is left in a bucket as deleted. -/
def sweep : List ObjectRecord → Action Unit Unit
  | [] => return ()
  | r :: rest => do
    if r.status ≠ .deleted then Action.call (.updateObject (r.turn .deleted))
    sweep rest

def delete (name : String) : Action Unit BucketRecord := do
  let r ← info name
  if r.status ≠ .ready ∧ r.status ≠ .deletionFailed then
    Action.refuse (.conflict s!"bucket cannot be deleted: {name}, status {r.status.name}")
  if !(← Action.call (.listObjects name { statuses := liveStatuses })).isEmpty then
    Action.refuse (.notAcceptable s!"bucket is not empty: {name}")
  Action.call (.setBucketStatus name .deleting)
  match ← Action.attempt (.eraseContainer name) with
  | .error _ =>
    Action.call (.setBucketStatus name .deletionFailed)
    Action.refuse (.internal "storage delete failed")
  | .ok () => pure ()
  sweep (← Action.call (.listObjects name {}))
  Action.call (.setBucketStatus name .deleted)
  return { r with status := .deleted }

end Depot.BucketResource
