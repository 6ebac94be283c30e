import Depot.Store

/-!
# Faults

A store in which chosen operations fail or crash, in which the storage takes payloads in by a plan of
its own, and in which stored bytes are cut short when they are read.
-/

namespace Depot

/-- What can be made to fail. -/
inductive Operation where
  | createBucket
  | getBucket
  | listBuckets
  | setBucketStatus
  | getObject
  | insertObject
  | updateObject
  | listObjects
  | makeContainer
  | write
  | openBytes
  | hasBytes
  | eraseBytes
  | eraseContainer
  deriving DecidableEq, Repr

/-- The operation that a call is the beginning of. -/
def Call.operation? : Call → Option Operation
  | .createBucket _ => some .createBucket
  | .getBucket _ => some .getBucket
  | .listBuckets => some .listBuckets
  | .setBucketStatus _ _ => some .setBucketStatus
  | .getObject _ => some .getObject
  | .insertObject _ => some .insertObject
  | .updateObject _ => some .updateObject
  | .listObjects _ _ => some .listObjects
  | .makeContainer _ => some .makeContainer
  | .intake _ => some .write
  | .openBytes _ => some .openBytes
  | .hasBytes _ => some .hasBytes
  | .eraseBytes _ => some .eraseBytes
  | .eraseContainer _ => some .eraseContainer
  | .stage _ | .put _ _ | .fetch _ => none

/-- What is wrong with an operation. -/
inductive Fault where
  | failure (message : String)
  | crash (message : String)
  deriving DecidableEq, Repr

/-- How stored bytes are cut short: their first bytes, and what follows in place of the others. -/
structure Cut where
  first : Nat
  next : Source
  deriving DecidableEq, Repr

/-- What is wrong with a store. -/
structure Faults where
  broken : List (Operation × Fault) := []
  intake : Option Intake := none
  cut : Option Cut := none
  deriving DecidableEq, Repr

namespace Cut

def apply (cut : Cut) (s : Source) : Source :=
  ⟨.data (s.bytes.take cut.first) :: cut.next.pieces, false⟩

end Cut

namespace Faults

def perform (f : Faults) (c : Call) (s : Store) : Reply c.Answer × Store :=
  match c.operation?.bind fun o => f.broken.lookup o with
  | some (.failure message) => (.failed (.unavailable message), s)
  | some (.crash message) => (.crashed message, s)
  | none =>
    match c with
    | .intake _ => (.ok f.intake, s)
    | .openBytes path =>
      match s.perform (.openBytes path), f.cut with
      | (.ok bytes, s), some cut => (.ok (cut.apply bytes), s)
      | r, _ => r
    | c => s.perform c

end Faults

end Depot
