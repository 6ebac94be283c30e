import Depot.Header

/-!
# Sessions

What the headers of a request settle for its transfer: the direction, the codings on both sides, the
declared hash and length, and the operation id, which is made new if the client gave none.
-/

namespace Depot

/-- Which way the payload flows. -/
inductive Direction where
  | upload
  | download
  deriving DecidableEq, Repr

/-- The negotiated state of one transfer. -/
structure Session where
  direction : Direction
  keepAlive : Bool
  /-- The declared length of the payload, zero if there is none. -/
  declaredLength : Nat
  compressedIn : Bool
  compressOut : Bool
  /-- Whether the payload is to be decompressed on its way in. -/
  decompressIn : Bool
  operationId : String
  declaredHash : Option String
  deriving DecidableEq, Repr

namespace Session

/-- The operation id of a request; `fresh` is used where the request has none. -/
def operationIdOf (h : Headers) (fresh : String) : String := (h.text? Header.operationId).getD fresh

/-- The session of a request. A length that is given explicitly, and is not zero, counts instead of
the content length; `keepCompressed` hands a compressed payload on as it is. -/
def setup (h : Headers) (direction : Direction) (explicitLength : Nat)
    (declaredHash : Option String) (keepCompressed : Bool) (fresh : String) : Session :=
  let compressedIn := h.hasToken Header.contentEncoding zstdToken
  { direction
    keepAlive := (h.text? Header.connection).all fun s => !Text.sameIgnoringCase s "close"
    declaredLength :=
      if explicitLength ≠ 0 then explicitLength
      else ((h.text? Header.contentLength).bind Text.size?).getD 0
    compressedIn
    compressOut := h.hasToken Header.acceptEncoding zstdToken
    decompressIn := direction == .upload && compressedIn && !keepCompressed
    operationId := operationIdOf h fresh
    declaredHash := if direction = .upload then declaredHash.filter (· ≠ "") else none }

end Session

end Depot
