import Depot.Proofs.Catalog.Agreement
import Depot.Proofs.Instant.Relaxed
import Depot.Proofs.Record.Reading

/-!
# The states of a catalog

A catalog is opened, performs operations, and is closed and opened again. In every state that it reaches this way
it has one record for each key, and what it gives out of a record is what the record can be: its attributes are in
order, its size is a number of sixty-four bits, and its times are in the years that can be named. Tables keep that
of whatever texts are in their rows, and a catalog in memory of what was put into it.

## Main results

* `Catalog.Reached.arranged` — there is one record for each key.
* `Catalog.Reached.wellTyped` — the records are such as a text can hold.
-/

namespace Depot

/-- What is read of a row that fits into its columns. -/
theorem Table.ObjectRow.wellTyped_toRecord {row : ObjectRow} (h : row.size < sizeBound) : row.toRecord.WellTyped where
  metadata := Metadata.sorted_ofText row.metadata
  size := Nat.lt_trans h (by decide)
  creation _ ht :=
    have ⟨_, _, hparse⟩ := Option.bind_eq_some_iff.mp ht
    Instant.inBounds_of_parse? hparse
  expires _ ht :=
    have ⟨_, _, hparse⟩ := Option.bind_eq_some_iff.mp ht
    Instant.inBounds_of_parse? hparse

namespace Catalog

variable {c : Catalog}

/-- Whether the record of an operation is such as a text can hold. -/
def Operation.WellTyped : Operation → Prop
  | insertObject r | updateObject r => r.WellTyped
  | _ => True

/-- The states of a catalog: it was opened, performed an operation, or was closed and opened again. -/
inductive Reached : Catalog → Prop
  | opened {engine : String} {c : Catalog} (h : open' engine = .ok c) : Reached c
  | performed {c : Catalog} (hc : Reached c) (op : Operation) (hop : op.WellTyped) : Reached (c.perform op).2
  | reopened {c : Catalog} (hc : Reached c) (onDisk : Bool) : Reached (c.reopen onDisk)

/-! ## One record for each key -/

theorem Arranged.perform (hc : c.Arranged) (op : Operation) : (c.perform op).2.Arranged := by
  cases op with
  | createBucket r => exact hc.createBucket r
  | setBucketStatus name s => exact hc.setBucketStatus name s
  | insertObject r => exact hc.insertObject r
  | updateObject r => exact hc.updateObject r
  | _ => exact hc

theorem Arranged.reopen (hc : c.Arranged) (onDisk : Bool) : (c.reopen onDisk).Arranged := by
  cases c with
  | memory c => exact MemoryCatalog.ordered_empty
  | table t =>
    cases onDisk with
    | true => exact hc
    | false => exact Table.keyed_empty

/-- There is one record for each key. -/
theorem Reached.arranged (hc : c.Reached) : c.Arranged := by
  induction hc with
  | opened h => exact arranged_open h
  | performed _ op _ ih => exact ih.perform op
  | reopened _ onDisk ih => exact ih.reopen onDisk

/-! ## The records -/

/-- Whether the records in memory are such as a text can hold, and the sizes of rows fit into their column. -/
def Typed : Catalog → Prop
  | memory c => ∀ e ∈ c.objects, e.2.WellTyped
  | table t => t.Sound

theorem typed_memory_insert {m : SortedMap Key ObjectRecord} (hm : ∀ e ∈ m, e.2.WellTyped) {r : ObjectRecord}
    (hr : r.WellTyped) : ∀ e ∈ SortedMap.insert m r.key r, e.2.WellTyped := by
  intro e he
  rcases SortedMap.mem_of_mem_insert he with rfl | he
  · exact hr
  · exact hm e he

theorem Typed.insertObject (hc : c.Typed) {r : ObjectRecord} (hr : r.WellTyped) : (c.insertObject r).2.Typed := by
  cases c with
  | memory c =>
    show Typed (memory (c.insertObject r).2)
    rw [MemoryCatalog.insertObject]
    repeat' split
    all_goals first | exact hc | exact typed_memory_insert hc hr
  | table t => exact Table.Sound.insertObject hc r

theorem Typed.updateObject (hc : c.Typed) {r : ObjectRecord} (hr : r.WellTyped) : (c.updateObject r).2.Typed := by
  cases c with
  | memory c =>
    show Typed (memory (c.updateObject r).2)
    rw [MemoryCatalog.updateObject]
    split
    · exact typed_memory_insert hc hr
    · exact hc
  | table t => exact Table.Sound.updateObject hc r

theorem Typed.createBucket (hc : c.Typed) (r : BucketRecord) : (c.createBucket r).2.Typed := by
  cases c with
  | memory c =>
    show Typed (memory (c.createBucket r).2)
    rw [MemoryCatalog.createBucket]
    repeat' split
    all_goals exact hc
  | table t => exact Table.Sound.createBucket hc r

theorem Typed.setBucketStatus (hc : c.Typed) (name : String) (s : Status) : (c.setBucketStatus name s).2.Typed := by
  cases c with
  | memory c =>
    show Typed (memory (c.setBucketStatus name s).2)
    rw [MemoryCatalog.setBucketStatus]
    split <;> exact hc
  | table t => exact Table.Sound.setBucketStatus hc name s

theorem Typed.perform (hc : c.Typed) {op : Operation} (hop : op.WellTyped) : (c.perform op).2.Typed := by
  cases op with
  | createBucket r => exact hc.createBucket r
  | setBucketStatus name s => exact hc.setBucketStatus name s
  | insertObject r => exact hc.insertObject hop
  | updateObject r => exact hc.updateObject hop
  | _ => exact hc

theorem Typed.reopen (hc : c.Typed) (onDisk : Bool) : (c.reopen onDisk).Typed := by
  cases c with
  | memory c => simp [Catalog.reopen, Typed]
  | table t =>
    cases onDisk with
    | true => exact hc
    | false => simp [Catalog.reopen, Typed, Table.Sound]

theorem Reached.typed (hc : c.Reached) : c.Typed := by
  induction hc with
  | opened h => rcases eq_of_open h with rfl | rfl <;> simp [Typed, Table.Sound]
  | performed _ _ hop ih => exact ih.perform hop
  | reopened _ onDisk ih => exact ih.reopen onDisk

theorem Typed.wellTyped (hc : c.Typed) {k : Key} {r : ObjectRecord} (h : c.getObject k = some r) : r.WellTyped := by
  cases c with
  | memory c => exact hc _ (SortedMap.mem_of_get? h)
  | table t =>
    rw [getObject, Table.getObject_eq, Option.map_eq_some_iff] at h
    obtain ⟨row, hrow, rfl⟩ := h
    exact Table.ObjectRow.wellTyped_toRecord (hc row (List.mem_of_find?_eq_some hrow))

/-- The records are such as a text can hold. -/
theorem Reached.wellTyped (hc : c.Reached) {k : Key} {r : ObjectRecord} (h : c.getObject k = some r) :
    r.WellTyped := hc.typed.wellTyped h

end Catalog

end Depot
