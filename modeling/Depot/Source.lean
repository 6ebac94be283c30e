import Depot.Bytes

/-!
# Byte sources

A source hands out bytes piece by piece and may fail in between. A read asks for at most `n` bytes
and gets bytes of one piece; no bytes where some were asked for mean the end. A source that is still
open, such as the body of a request under way, answers `pending` where nothing has arrived yet.
-/

namespace Depot

inductive ErrorKind where
  | other
  | connectionReset
  | connectionAborted
  | interrupted
  | timedOut
  | unexpectedEnd
  | invalidData
  | invalidInput
  | notFound
  | alreadyExists
  | notADirectory
  | isADirectory
  | directoryNotEmpty
  | invalidFilename
  | resourceBusy
  /-- Nothing has arrived yet. -/
  | pending
  deriving DecidableEq, Repr

/-- An error that leaves a reader where it was, so that the read is simply made again. -/
def ErrorKind.isTransient (k : ErrorKind) : Bool := k == .interrupted || k == .pending

/-- An error of a read or of a file operation. `codec` marks an error that the decoding of a
compressed payload raised, as opposed to its source. -/
structure ReadError where
  kind : ErrorKind
  message : String
  codec : Bool := false
  deriving DecidableEq, Repr

abbrev ReadResult := Except ReadError Bytes

namespace ReadResult

/-- The bytes that a read brought. -/
def bytes : ReadResult → Bytes
  | .ok out => out
  | .error _ => []

/-- The error of a read that failed. -/
def error? : ReadResult → Option ReadError
  | .ok _ => none
  | .error e => some e

end ReadResult

/-- One piece of a source: bytes, or an error that is raised once. -/
inductive Source.Piece where
  | data (bytes : Bytes)
  | failure (error : ReadError)
  deriving DecidableEq, Repr

/-- A source: its pieces, and whether more may follow. -/
structure Source where
  pieces : List Source.Piece
  isOpen : Bool := false
  deriving DecidableEq, Repr

namespace Source

def ofBytes (bytes : Bytes) : Source := ⟨[.data bytes], false⟩

def ofPieces (chunks : List Bytes) : Source := ⟨chunks.map .data, false⟩

/-- The answer of a source from which nothing has arrived. -/
def nothingYet : ReadError := ⟨.pending, "", false⟩

/-- Read at most `n` bytes; empty pieces are passed over. -/
def readPieces (isOpen : Bool) (n : Nat) : List Piece → ReadResult × List Piece
  | [] => (if isOpen ∧ n ≠ 0 then .error nothingYet else .ok [], [])
  | .data [] :: rest => readPieces isOpen n rest
  | .data bytes :: rest =>
    if n = 0 then (.ok [], .data bytes :: rest)
    else (.ok (bytes.take n), .data (bytes.drop n) :: rest)
  | .failure e :: rest => if n = 0 then (.ok [], .failure e :: rest) else (.error e, rest)

def read (s : Source) (n : Nat) : ReadResult × Source :=
  let (r, pieces) := readPieces s.isOpen n s.pieces
  (r, { s with pieces := pieces })

/-- A bound on the number of reads that are not the end. -/
def weight (s : Source) : Nat :=
  s.pieces.foldr (fun p n => match p with
    | .data bytes => bytes.length + 1 + n
    | .failure _ => 1 + n) 0

/-- All bytes of the source, its errors left out. -/
def bytes (s : Source) : Bytes :=
  s.pieces.flatMap fun
    | .data bytes => bytes
    | .failure _ => []

/-- Everything up to the end, or up to the first error that is not an interruption. -/
def readToEnd (s : Source) : Bytes × Option ReadError :=
  let rec go : List Piece → Bytes × Option ReadError
    | [] => ([], none)
    | .data bytes :: rest => let (more, e) := go rest; (bytes ++ more, e)
    | .failure e :: rest => if e.kind = .interrupted then go rest else ([], some e)
  go s.pieces

def append (s : Source) (p : Piece) : Source := { s with pieces := s.pieces ++ [p] }

/-- The source to which nothing more will be added. -/
def close (s : Source) : Source := { s with isOpen := false }

end Source

end Depot
