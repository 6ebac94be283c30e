import Depot.Record
import Depot.Source

/-!
# Listings

Records as lines of JSON. Each record is a piece of its own, so a read never spans two lines. A reader of
records makes the lines one after the other, when the one before is used up.
-/

namespace Depot.Listing

def line (r : ObjectRecord) : Bytes := Bytes.ofText (r.toJson.compact ++ "\n")

/-- The lines of some records. -/
def source (records : List ObjectRecord) : Source := .ofPieces (records.map line)

/-- A reader of records: those whose lines are still to come, and the line under way. -/
structure Reader where
  records : List ObjectRecord
  line : Bytes := []
  /-- How much of the line was read. -/
  position : Nat := 0

namespace Reader

/-- All that is still to be read. -/
def left (r : Reader) : Bytes := r.line.drop r.position ++ r.records.flatMap Listing.line

/-- Turn to the next line for as long as the one under way is used up. -/
def refill : List ObjectRecord → Bytes → Nat → Reader
  | [], line, position => ⟨[], line, position⟩
  | r :: rest, line, position =>
    if position = line.length then refill rest (Listing.line r) 0 else ⟨r :: rest, line, position⟩

/-- Take at most `n` bytes of the line under way. -/
def take (r : Reader) (n : Nat) : Bytes × Reader :=
  let size := min n (r.line.length - r.position)
  ((r.line.drop r.position).take size, { r with position := r.position + size })

/-- Read at most `n` bytes. -/
def read (r : Reader) (n : Nat) : Bytes × Reader :=
  if n = 0 then ([], r) else (refill r.records r.line r.position).take n

end Reader

end Depot.Listing
