import Depot.Catalog
import Depot.Proofs.Catalog.Order
import Depot.Proofs.Json

/-!
# Tables agree with memory

A catalog in tables answers every operation as a catalog in memory does that is given the same records with
their times as the tables keep them: an instant becomes a text of milliseconds, and is lost if that text does
not name an instant. Closing and opening the tables in between changes nothing.

## Main results

* `Table.ObjectRow.toRecord_ofRecord` — what a row gives back of a record.
* `Catalog.perform_agrees` — agreeing catalogs answer an operation the same way, and agree afterwards.
* `Catalog.performSessions_eq_performAll` — they answer all operations of all sessions the same way.
-/

namespace Depot

/-! ## What tables keep of a record -/

/-- The instant that the text of an instant with three digits of the second's fraction names. -/
def Instant.stored (t : Instant) : Option Instant := Instant.parse? t.millisText

/-- The record with its times as their texts give them back. -/
def BucketRecord.stored (r : BucketRecord) : BucketRecord :=
  { r with creation := r.creation.bind Instant.stored }

/-- The record with its times as their texts give them back. -/
def ObjectRecord.stored (r : ObjectRecord) : ObjectRecord :=
  { r with creation := r.creation.bind Instant.stored, expires := r.expires.bind Instant.stored }

theorem Instant.bind_parse?_millisText (time : Option Instant) :
    (time.map (·.millisText)).bind Instant.parse? = time.bind Instant.stored := by
  cases time <;> rfl

namespace Table

@[simp] theorem BucketRow.toRecord_ofRecord (r : BucketRecord) : (ofRecord r).toRecord = r.stored := by
  simp only [ofRecord, toRecord, BucketRecord.stored, Status.parse_name, Instant.bind_parse?_millisText]

theorem ObjectRow.toRecord_ofRecord {r : ObjectRecord} (h : r.metadata.Sorted) :
    (ofRecord r).toRecord = r.stored := by
  simp only [ofRecord, toRecord, ObjectRecord.stored, Status.parse_name, Instant.bind_parse?_millisText,
    show Metadata.ofText r.metadata.toJson.compact = r.metadata from Metadata.ofText_compact h .byName]

variable {t : Table}

/-- Looking up a bucket after the rows of one were changed. -/
theorem getBucket_changeBucket {f : BucketRow → BucketRow} {name : String} {row : BucketRow}
    (hf : ∀ o : BucketRow, o.name = name → (f o).name = name) (hrow : t.bucketRow? name = some row)
    (other : String) :
    ({ t with buckets := t.buckets.map fun o => if o.name == name then f o else o } : Table).getBucket other =
      if other = name then some (f row).toRecord else t.getBucket other := by
  rw [bucketRow?] at hrow
  rw [getBucket, bucketRow?, find?_map_change BucketRow.name f name hf, hrow]
  split <;> rfl

/-- Looking up a bucket after one was added. -/
theorem getBucket_addBucket {r : BucketRecord} (hnone : t.bucketRow? r.name = none) (other : String) :
    ({ t with buckets := t.buckets ++ [.ofRecord r] } : Table).getBucket other =
      if other = r.name then some r.stored else t.getBucket other := by
  rw [bucketRow?] at hnone
  rw [getBucket, bucketRow?, List.find?_append, getBucket, bucketRow?]
  split
  · rename_i h
    rw [h, hnone]
    simp [BucketRow.ofRecord, ← BucketRow.toRecord_ofRecord]
  · rename_i h
    have hother : ((BucketRow.ofRecord r).name == other) = false := beq_eq_false_iff_ne.mpr (Ne.symm h)
    simp [hother]

end Table

/-! ## Tables and memory agree -/

/-- Whether tables and a catalog in memory give the same records. -/
structure Agrees (t : Table) (c : MemoryCatalog) : Prop where
  keyed : t.Keyed
  ordered : c.Ordered
  bucket : ∀ name, t.getBucket name = c.getBucket name
  object : ∀ k, t.getObject k = c.getObject k

namespace Agrees

variable {t : Table} {c : MemoryCatalog}

theorem empty : Agrees {} {} :=
  ⟨Table.keyed_empty, MemoryCatalog.ordered_empty, fun _ => rfl, fun _ => rfl⟩

/-- The states that the rows of a bucket and its record give are the same. -/
theorem bucketStatus (h : Agrees t c) (name : String) :
    (t.bucketRow? name).map (fun row => Status.parse row.status) =
      (SortedMap.get? c.buckets name).map (·.status) := by
  rw [← MemoryCatalog.getBucket, ← h.bucket, Table.getBucket, Option.map_map]
  simp [Function.comp_def]

theorem objectStatus (h : Agrees t c) (k : Key) :
    (t.objectRow? k.bucket k.name).map (fun row => Status.parse row.status) =
      (SortedMap.get? c.objects k).map (·.status) := by
  rw [← MemoryCatalog.getObject, ← h.object, Table.getObject, Option.map_map]
  simp [Function.comp_def]

theorem createBucket (h : Agrees t c) (r : BucketRecord) :
    (t.createBucket r).1 = (c.createBucket r.stored).1 ∧
      Agrees (t.createBucket r).2 (c.createBucket r.stored).2 := by
  have hstatus := h.bucketStatus r.name
  have hkeyed := h.keyed.createBucket r
  have hordered := h.ordered.createBucket r.stored
  have hname : r.stored.name = r.name := rfl
  rw [Table.createBucket] at hkeyed ⊢
  rw [MemoryCatalog.createBucket, hname, ← hstatus] at hordered ⊢
  have hinsert (other : String) : SortedMap.get? (SortedMap.insert c.buckets r.name r.stored) other =
      if other = r.name then some r.stored else c.getBucket other :=
    SortedMap.get?_insert c.buckets r.name other r.stored
  cases hrow : t.bucketRow? r.name with
  | none =>
    rw [hrow] at hkeyed hordered
    refine ⟨rfl, hkeyed, hordered, fun other => ?_, h.object⟩
    rw [Table.getBucket_addBucket hrow, h.bucket]
    exact (hinsert other).symm
  | some row =>
    simp only [hrow, Option.map_some] at hkeyed hordered ⊢
    split
    · rename_i hfree
      rw [if_pos hfree] at hkeyed hordered
      refine ⟨rfl, hkeyed, hordered, fun other => ?_, h.object⟩
      have hrows := Table.getBucket_changeBucket (fun _ _ => show (Table.BucketRow.ofRecord r).name = r.name from rfl)
        hrow other
      rw [Table.BucketRow.toRecord_ofRecord, h.bucket, ← hinsert] at hrows
      exact hrows
    · exact ⟨rfl, h⟩

theorem setBucketStatus (h : Agrees t c) (name : String) (s : Status) :
    (t.setBucketStatus name s).1 = (c.setBucketStatus name s).1 ∧
      Agrees (t.setBucketStatus name s).2 (c.setBucketStatus name s).2 := by
  have hkeyed := h.keyed.setBucketStatus name s
  have hordered := h.ordered.setBucketStatus name s
  have hrecord : (t.bucketRow? name).map (·.toRecord) = SortedMap.get? c.buckets name := h.bucket name
  rw [Table.setBucketStatus] at hkeyed ⊢
  rw [MemoryCatalog.setBucketStatus, ← hrecord] at hordered ⊢
  cases hrow : t.bucketRow? name with
  | none => exact ⟨rfl, h⟩
  | some row =>
    rw [hrow] at hkeyed hordered
    refine ⟨rfl, hkeyed, hordered, fun other => ?_, h.object⟩
    have hchanged : ({ row with status := s.name } : Table.BucketRow).toRecord =
        { row.toRecord with status := s } := by
      simp only [Table.BucketRow.toRecord, Status.parse_name]
    rw [Table.getBucket_changeBucket (f := fun o => { o with status := s.name }) (fun _ hname => hname) hrow,
      h.bucket, hchanged]
    exact (SortedMap.get?_insert c.buckets name other _).symm

/-- Records put in the place of others are the same. -/
theorem putObject (h : Agrees t c) {t' : Table} {r : ObjectRecord} (hkeyed : t'.Keyed)
    (hbuckets : t'.buckets = t.buckets) (hmeta : r.metadata.Sorted)
    (hobjects : ∀ k, t'.getObject k =
      if k = r.key then some (Table.ObjectRow.ofRecord r).toRecord else t.getObject k) :
    Agrees t' { c with objects := SortedMap.insert c.objects r.stored.key r.stored } := by
  refine ⟨hkeyed, h.ordered.putObject r.stored, fun name => ?_, fun k => ?_⟩
  · rw [Table.getBucket, Table.bucketRow?, hbuckets]
    exact h.bucket name
  · rw [hobjects, Table.ObjectRow.toRecord_ofRecord hmeta, h.object]
    exact (SortedMap.get?_insert c.objects r.key k r.stored).symm

theorem insertObject (h : Agrees t c) {r : ObjectRecord} (hsize : r.size < Table.sizeBound)
    (hmeta : r.metadata.Sorted) :
    (t.insertObject r).1 = (c.insertObject r.stored).1 ∧
      Agrees (t.insertObject r).2 (c.insertObject r.stored).2 := by
  have hready : (t.bucketRow? r.bucket).bind (fun row => Status.parse? row.status) = some .ready ↔
      (SortedMap.get? c.buckets r.bucket).map (·.status) = some .ready := by
    rw [← h.bucketStatus]
    cases t.bucketRow? r.bucket with
    | none => simp
    | some row =>
      rw [Option.bind_some, Option.map_some, Option.some_inj, Status.parse]
      cases Status.parse? row.status <;> simp
  have hput := h.putObject (h.keyed.putObject (.ofRecord r)) rfl hmeta (t.getObject_putObject r)
  have hstatus := h.objectStatus r.key
  have hkey : r.stored.key = r.key := rfl
  have hbucket : r.stored.bucket = r.bucket := rfl
  rw [hkey] at hput
  rw [Table.insertObject, MemoryCatalog.insertObject, hkey, hbucket, ← hstatus]
  simp only [hready, if_pos hsize]
  split
  · cases hrow : t.objectRow? r.key.bucket r.key.name with
    | none =>
      have hrow' : t.objectRow? r.bucket r.name = none := hrow
      simpa only [hrow', Option.map_none, true_and] using hput
    | some row =>
      have hrow' : t.objectRow? r.bucket r.name = some row := hrow
      simp only [hrow', Option.map_some]
      split
      · exact ⟨rfl, hput⟩
      · exact ⟨rfl, h⟩
  · exact ⟨rfl, h⟩

theorem updateObject (h : Agrees t c) {r : ObjectRecord} (hsize : r.size < Table.sizeBound)
    (hmeta : r.metadata.Sorted) :
    (t.updateObject r).1 = (c.updateObject r.stored).1 ∧
      Agrees (t.updateObject r).2 (c.updateObject r.stored).2 := by
  have hkeyed := h.keyed.updateObject r
  have hrecord : (t.objectRow? r.bucket r.name).map (·.toRecord) = SortedMap.get? c.objects r.stored.key :=
    h.object r.key
  rw [Table.updateObject, if_pos hsize] at hkeyed ⊢
  rw [MemoryCatalog.updateObject, ← hrecord]
  cases hrow : t.objectRow? r.bucket r.name with
  | none => exact ⟨rfl, h⟩
  | some row =>
    rw [hrow] at hkeyed
    exact ⟨rfl, h.putObject hkeyed rfl hmeta (t.getObject_changeObject hrow)⟩

theorem listBuckets (h : Agrees t c) : t.listBuckets = c.listBuckets := by
  refine eq_of_pairwise_lt BucketRecord.name h.keyed.pairwise_listBuckets h.ordered.pairwise_listBuckets fun r => ?_
  rw [Table.listBuckets, MemoryCatalog.listBuckets, List.mem_map, List.mem_map, h.ordered.mem_buckets,
    ← h.bucket, ← h.keyed.mem_buckets]
  simp only [List.mem_mergeSort]

theorem listObjects (h : Agrees t c) (bucket : String) {f : Filter}
    (hstart : ∀ start ∈ f.nameStart, Char.ofNat 0 ∉ start.toList) :
    t.listObjects bucket f = c.listObjects bucket f := by
  refine eq_of_pairwise_lt ObjectRecord.name (h.keyed.pairwise_listObjects bucket f)
    (h.ordered.pairwise_listObjects bucket f) fun r => ?_
  rw [h.keyed.mem_listObjects hstart, h.ordered.mem_listObjects, h.object]

end Agrees

namespace Catalog

/-- An operation of a catalog. -/
inductive Operation where
  | createBucket (record : BucketRecord)
  | getBucket (name : String)
  | hasBucket (name : String)
  | listBuckets
  | setBucketStatus (name : String) (status : Status)
  | getObject (key : Key)
  | insertObject (record : ObjectRecord)
  | updateObject (record : ObjectRecord)
  | listObjects (bucket : String) (filter : Filter)
  deriving DecidableEq, Repr

/-- The answer to an operation. -/
inductive Response where
  | occupied (status : Option Status)
  | bucket (record : Option BucketRecord)
  | truth (value : Bool)
  | buckets (records : List BucketRecord)
  | changed (result : Except StoreError Unit)
  | object (record : Option ObjectRecord)
  | inserted (result : Except StoreError (Option Status))
  | objects (records : List ObjectRecord)

def perform (c : Catalog) : Operation → Response × Catalog
  | .createBucket r => (c.createBucket r).map .occupied id
  | .getBucket name => (.bucket (c.getBucket name), c)
  | .hasBucket name => (.truth (c.hasBucket name), c)
  | .listBuckets => (.buckets c.listBuckets, c)
  | .setBucketStatus name s => (c.setBucketStatus name s).map .changed id
  | .getObject k => (.object (c.getObject k), c)
  | .insertObject r => (c.insertObject r).map .inserted id
  | .updateObject r => (c.updateObject r).map .changed id
  | .listObjects bucket f => (.objects (c.listObjects bucket f), c)

/-- Perform operations one after the other. -/
def performAll (c : Catalog) : List Operation → List Response × Catalog
  | [] => ([], c)
  | op :: ops =>
    let (response, c) := c.perform op
    let (responses, c) := c.performAll ops
    (response :: responses, c)

/-- Perform operations in sessions; the catalog is closed and opened again between two of them. -/
def performSessions (c : Catalog) (onDisk : Bool) : List (List Operation) → List Response × Catalog
  | [] => ([], c)
  | ops :: sessions =>
    let (responses, c) := c.performAll ops
    let (more, c) := (c.reopen onDisk).performSessions onDisk sessions
    (responses ++ more, c)

namespace Operation

/-- The operation with the times of its record as their texts give them back. -/
def stored : Operation → Operation
  | createBucket r => createBucket r.stored
  | insertObject r => insertObject r.stored
  | updateObject r => updateObject r.stored
  | op => op

/-- Whether tables can take an operation: sizes fit into their column, attributes are a map, and the
start of a name that a listing asks for is free of NUL. -/
def Storable : Operation → Prop
  | insertObject r | updateObject r => r.size < Table.sizeBound ∧ r.metadata.Sorted
  | listObjects _ f => ∀ start ∈ f.nameStart, Char.ofNat 0 ∉ start.toList
  | _ => True

instance (op : Operation) : Decidable op.Storable :=
  match op with
  | insertObject r | updateObject r => inferInstanceAs (Decidable (r.size < Table.sizeBound ∧ r.metadata.Sorted))
  | listObjects _ f => inferInstanceAs (Decidable (∀ start ∈ f.nameStart, Char.ofNat 0 ∉ start.toList))
  | createBucket _ | getBucket _ | hasBucket _ | listBuckets | setBucketStatus _ _ | getObject _ =>
    inferInstanceAs (Decidable True)

end Operation

/-- Agreeing catalogs answer an operation the same way, and agree afterwards. -/
theorem perform_agrees {t : Table} {m : MemoryCatalog} (h : Agrees t m) {op : Operation} (hop : op.Storable) :
    ∃ t' m', Agrees t' m' ∧ ((table t).perform op).2 = table t' ∧
      (memory m).perform op.stored = (((table t).perform op).1, memory m') := by
  cases op with
  | createBucket r =>
    obtain ⟨hanswer, hnext⟩ := h.createBucket r
    refine ⟨_, _, hnext, rfl, ?_⟩
    simp [perform, Operation.stored, Catalog.createBucket, hanswer]
  | getBucket name =>
    refine ⟨t, m, h, rfl, ?_⟩
    simp [perform, Operation.stored, Catalog.getBucket, h.bucket]
  | hasBucket name =>
    refine ⟨t, m, h, rfl, ?_⟩
    simp [perform, Operation.stored, Catalog.hasBucket, Catalog.getBucket, h.bucket]
  | listBuckets =>
    refine ⟨t, m, h, rfl, ?_⟩
    simp [perform, Operation.stored, Catalog.listBuckets, h.listBuckets]
  | setBucketStatus name s =>
    obtain ⟨hanswer, hnext⟩ := h.setBucketStatus name s
    refine ⟨_, _, hnext, rfl, ?_⟩
    simp [perform, Operation.stored, Catalog.setBucketStatus, hanswer]
  | getObject k =>
    refine ⟨t, m, h, rfl, ?_⟩
    simp [perform, Operation.stored, Catalog.getObject, h.object]
  | insertObject r =>
    obtain ⟨hanswer, hnext⟩ := h.insertObject hop.1 hop.2
    refine ⟨_, _, hnext, rfl, ?_⟩
    simp [perform, Operation.stored, Catalog.insertObject, hanswer]
  | updateObject r =>
    obtain ⟨hanswer, hnext⟩ := h.updateObject hop.1 hop.2
    refine ⟨_, _, hnext, rfl, ?_⟩
    simp [perform, Operation.stored, Catalog.updateObject, hanswer]
  | listObjects bucket f =>
    refine ⟨t, m, h, rfl, ?_⟩
    simp [perform, Operation.stored, Catalog.listObjects, h.listObjects bucket hop]

theorem performAll_cons (c : Catalog) (op : Operation) (ops : List Operation) : c.performAll (op :: ops) =
    ((c.perform op).1 :: ((c.perform op).2.performAll ops).1, ((c.perform op).2.performAll ops).2) := rfl

theorem performAll_append (c : Catalog) (ops more : List Operation) : c.performAll (ops ++ more) =
    ((c.performAll ops).1 ++ ((c.performAll ops).2.performAll more).1, ((c.performAll ops).2.performAll more).2) := by
  induction ops generalizing c with
  | nil => rfl
  | cons op ops ih => simp [performAll_cons, ih]

theorem performSessions_cons (c : Catalog) (onDisk : Bool) (ops : List Operation)
    (sessions : List (List Operation)) : (c.performSessions onDisk (ops :: sessions)).1 =
      (c.performAll ops).1 ++ (((c.performAll ops).2.reopen onDisk).performSessions onDisk sessions).1 := rfl

theorem performAll_agrees {t : Table} {m : MemoryCatalog} (h : Agrees t m) {ops : List Operation}
    (hops : ∀ op ∈ ops, op.Storable) :
    ∃ t' m', Agrees t' m' ∧ ((table t).performAll ops).2 = table t' ∧
      (memory m).performAll (ops.map .stored) = (((table t).performAll ops).1, memory m') := by
  induction ops generalizing t m with
  | nil => exact ⟨t, m, h, rfl, rfl⟩
  | cons op ops ih =>
    obtain ⟨t₁, m₁, h₁, htable, hmemory⟩ := perform_agrees h (hops op List.mem_cons_self)
    obtain ⟨t₂, m₂, h₂, htables, hmemories⟩ := ih h₁ fun op hop => hops op (List.mem_cons_of_mem _ hop)
    refine ⟨t₂, m₂, h₂, ?_, ?_⟩
    · rw [performAll_cons, htable, htables]
    · rw [List.map_cons, performAll_cons, performAll_cons, hmemory, htable, hmemories]

/-- Tables on a disk do not lose anything between two sessions. -/
theorem performSessions_agrees {t : Table} {m : MemoryCatalog} (h : Agrees t m) {sessions : List (List Operation)}
    (hsessions : ∀ ops ∈ sessions, ∀ op ∈ ops, op.Storable) :
    ((table t).performSessions true sessions).1 = ((memory m).performAll (sessions.flatten.map .stored)).1 := by
  induction sessions generalizing t m with
  | nil => rfl
  | cons ops sessions ih =>
    obtain ⟨t', m', h', htable, hmemory⟩ := performAll_agrees h (hsessions ops List.mem_cons_self)
    have hrest := ih h' fun ops hops => hsessions ops (List.mem_cons_of_mem _ hops)
    rw [List.flatten_cons, List.map_append, performAll_append, performSessions_cons, hmemory, htable]
    exact congrArg _ hrest

/-- Tables on a disk, closed and opened again any number of times, answer operations as a catalog in memory
answers them for records whose times are what their texts give back. -/
theorem performSessions_eq_performAll {sessions : List (List Operation)}
    (h : ∀ ops ∈ sessions, ∀ op ∈ ops, op.Storable) :
    ((table {}).performSessions true sessions).1 = ((memory {}).performAll (sessions.flatten.map .stored)).1 :=
  performSessions_agrees Agrees.empty h

/-- A bucket and an object that are kept finer than the tables keep times, and read back in a second session. -/
theorem performSessions_eq_two_sessions :
    let noon : Instant := ⟨⟨2024, 2, 29, by decide⟩, 12, 0, 0, 123456789, by decide⟩
    let bucket : BucketRecord := { name := "maps", creation := some noon }
    let object : ObjectRecord :=
      { bucket := "maps", name := "a/b", status := .ready, creation := some noon, size := 7,
        metadata := [("kind", "say \"tile\""), ("owner", "ü\n")] }
    let sessions : List (List Operation) :=
      [[.createBucket bucket, .insertObject object], [.listBuckets, .listObjects "maps" { nameStart := some "a/" }]]
    (∀ ops ∈ sessions, ∀ op ∈ ops, op.Storable) ∧
      ((table {}).performSessions true sessions).1 =
        ((memory {}).performAll (sessions.flatten.map .stored)).1 :=
  ⟨by decide, performSessions_eq_performAll (by decide)⟩

end Catalog

end Depot
