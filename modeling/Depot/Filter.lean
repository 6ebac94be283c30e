import Depot.Record

/-!
# Filters

Criteria for the objects of a listing. Each one that is set must hold; an object without a creation
time meets no criterion on it.
-/

namespace Depot

/-- Criteria for the objects of a bucket. -/
structure Filter where
  nameStart : Option String := none
  /-- The states admitted, all of them if none is given. -/
  statuses : List Status := []
  createdBefore : Option Instant := none
  createdAfter : Option Instant := none
  sizeBelow : Option Nat := none
  sizeAbove : Option Nat := none
  deriving DecidableEq, Repr

namespace Filter

def ofHeaders (h : Headers) : Filter where
  nameStart := h.text? Header.filterName
  statuses := ((h.text? Header.filterStatuses).map fun s =>
    (Text.split ',' s).filterMap Status.parse?).getD []
  createdBefore := (h.text? Header.filterCreationBefore).bind Instant.parse?
  createdAfter := (h.text? Header.filterCreationAfter).bind Instant.parse?
  sizeBelow := (h.text? Header.filterSizeBelow).bind Text.size?
  sizeAbove := (h.text? Header.filterSizeAbove).bind Text.size?

/-- Whether a criterion holds, if it is set. -/
def holds {α : Type} (criterion : Option α) (p : α → Bool) : Bool := criterion.all p

/-- Whether a record meets all criteria. -/
def accepts (f : Filter) (r : ObjectRecord) : Bool :=
  holds f.nameStart (fun start => start.toList.isPrefixOf r.name.toList) &&
    (f.statuses.isEmpty || f.statuses.contains r.status) &&
    holds f.createdBefore (fun t => r.creation.any fun c => c.before t) &&
    holds f.createdAfter (fun t => r.creation.any fun c => t.before c) &&
    holds f.sizeBelow (fun n => r.size < n) &&
    holds f.sizeAbove (fun n => n < r.size)

end Filter

end Depot
