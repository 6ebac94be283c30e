import Depot.Source

/-!
# Store errors

The causes for which an operation of the catalog or of the storage fails.
-/

namespace Depot

/-- Why an operation of the catalog or of the storage failed. -/
inductive StoreError where
  /-- No bucket of the name can take objects, or be changed. -/
  | bucketMissing (bucket : String)
  | objectMissing (bucket name : String)
  | sizeOutOfRange
  /-- A storage key leads out of the storage. -/
  | escapingKey (key : String)
  | bytesMissing (key : String)
  /-- A name does not belong to a bucket's directory. -/
  | notABucket (bucket : String)
  /-- More bytes are needed than the storage may hold. -/
  | limitExceeded (needed limit : Nat)
  | unknownEngine (name : String)
  | unknownBackend (name : String)
  /-- A file operation, or reading the payload, failed. -/
  | io (error : ReadError)
  /-- The store is out of order. -/
  | unavailable (message : String)
  deriving DecidableEq, Repr

namespace StoreError

def message : StoreError → String
  | bucketMissing bucket => s!"bucket does not exist: {bucket}"
  | objectMissing bucket name => s!"object does not exist: {bucket}/{name}"
  | sizeOutOfRange => "number too large to fit in target type"
  | escapingKey key => s!"Path traversal detected in storage key: {key}"
  | bytesMissing key => s!"Object not found at storage key: {key}"
  | notABucket bucket => s!"not a bucket directory: {bucket}"
  | limitExceeded needed limit =>
    s!"memory storage limit exceeded: {needed} bytes needed, limit is {limit}"
  | unknownEngine name => s!"unknown metadata engine: {name}"
  | unknownBackend name => s!"unknown storage backend: {name}"
  | io e => e.message
  | unavailable message => message

end StoreError

end Depot
