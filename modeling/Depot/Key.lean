import Depot.Error
import Depot.Header

/-!
# Keys

An object is addressed by its bucket and its name. Bucket names are short and plain; object names are
paths without empty or relative segments, so a key never leads out of its bucket.
-/

namespace Depot

/-- The address of an object. -/
structure Key where
  bucket : String
  name : String
  deriving DecidableEq, Repr

/-- Keys are ordered by their buckets, then by their names. -/
instance : Ord Key where
  compare a b := (compare a.bucket b.bucket).then (compare a.name b.name)

def isBucketEnd (c : Char) : Bool := ('a' ≤ c && c ≤ 'z') || ('0' ≤ c && c ≤ '9')

/-- Whether a bucket may have a name: 3 to 63 lower-case letters, digits, hyphens and dots, the first
and the last one a letter or a digit. -/
def isBucketName (s : String) : Bool :=
  let cs := s.toList
  3 ≤ cs.length && cs.length ≤ 63 &&
    cs.all (fun c => isBucketEnd c || c == '-' || c == '.') &&
    cs.head?.any isBucketEnd && cs.getLast?.any isBucketEnd

/-- Whether an object may have a name: at most 1024 bytes, without NUL, whose segments are not empty,
`.` or `..`. -/
def isObjectName (s : String) : Bool :=
  s.utf8ByteSize ≤ 1024 && !s.toList.contains (Char.ofNat 0) &&
    (Text.split '/' s).all fun segment => segment != "" && segment != "." && segment != ".."

def checkBucketName (s : String) : Except TransferError Unit :=
  if isBucketName s then .ok () else .error (.invalidArgument s!"invalid bucket name: {s}")

def checkObjectName (s : String) : Except TransferError Unit :=
  if isObjectName s then .ok () else .error (.invalidArgument s!"invalid object name: {s}")

namespace Key

/-- The key of a valid bucket name and a valid object name. -/
def parse (bucket name : String) : Except TransferError Key := do
  checkBucketName bucket
  checkObjectName name
  return ⟨bucket, name⟩

/-- The key as a path, under which the bytes are stored. -/
def path (k : Key) : String := k.bucket ++ "/" ++ k.name

/-- The headers that name the object of a failed request. -/
def fields (k : Key) : Fields := [(Header.bucket, k.bucket), (Header.name, k.name)]

end Key

end Depot
