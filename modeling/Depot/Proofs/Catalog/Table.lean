import Depot.Catalog.Table
import Depot.Proofs.Catalog.Memory

/-!
# What the catalog in tables holds

The operations of the catalog in tables, as a store with any storage sees them. It fails where a size does
not fit into its column, and when it is told to change what is not there.

## Main results

* `Table.Sound` — the sizes of all rows fit into their column.
* `Table.allows_listObjects` — a listing is of what is there, and of all of it.
-/

namespace Depot

theorem Status.parse_name (t : Status) : parse t.name = t := by cases t <;> decide

section Rows

variable {α κ : Type} [DecidableEq κ] (key : α → κ)

/-- Looking up a row after those of one key were changed. -/
theorem find?_map_change (f : α → α) (k : κ) (hf : ∀ o, key o = k → key (f o) = k) (rows : List α) (k' : κ) :
    (rows.map fun o => if key o == k then f o else o).find? (key · == k') =
      if k' = k then (rows.find? (key · == k)).map f else rows.find? (key · == k') := by
  induction rows with
  | nil => simp
  | cons o rest ih =>
    rw [List.map_cons, List.find?_cons, List.find?_cons, List.find?_cons, ih]
    by_cases ho : key o = k
    · have hchanged : key (f o) = k := hf o ho
      by_cases h : k' = k
      · simp [ho, h, hchanged]
      · have hother : (k == k') = false := beq_eq_false_iff_ne.mpr (Ne.symm h)
        simp [ho, h, hchanged, hother]
    · have hkept : (key o == k) = false := beq_eq_false_iff_ne.mpr ho
      by_cases h : k' = k <;> simp [hkept, h]

/-- Looking up a row after one of its key took the place of all others. -/
theorem find?_filter_append (row : α) (rows : List α) (k' : κ) :
    (rows.filter (fun o => !(key o == key row)) ++ [row]).find? (key · == k') =
      if k' = key row then some row else rows.find? (key · == k') := by
  induction rows with
  | nil =>
    by_cases h : k' = key row
    · simp [h]
    · have hother : (key row == k') = false := beq_eq_false_iff_ne.mpr (Ne.symm h)
      simp [h, hother]
  | cons o rest ih =>
    by_cases ho : key o = key row
    · by_cases h : k' = key row
      · simpa [ho, h] using ih
      · have hother : (key row == k') = false := beq_eq_false_iff_ne.mpr (Ne.symm h)
        simpa [ho, h, hother] using ih
    · have hkept : (key o == key row) = false := beq_eq_false_iff_ne.mpr ho
      rw [List.filter_cons, if_pos (by simp [hkept]), List.cons_append, List.find?_cons, List.find?_cons, ih]
      by_cases h : k' = key row <;> simp [hkept, h]

end Rows

namespace Table

/-- The primary key of a row. -/
def ObjectRow.key (row : ObjectRow) : Key := ⟨row.bucket, row.name⟩

theorem ObjectRow.hasKey_eq (row : ObjectRow) (bucket name : String) :
    row.hasKey bucket name = (row.key == ⟨bucket, name⟩) := by
  rw [Bool.eq_iff_iff]
  simp [hasKey, key]

@[simp] theorem ObjectRow.entry_toRecord_ofRecord (r : ObjectRecord) :
    (ofRecord r).toRecord.entry = r.entry := by
  simp [ofRecord, toRecord, ObjectRecord.entry, Status.parse_name]

@[simp] theorem ObjectRow.status_toRecord (row : ObjectRow) :
    row.toRecord.status = Status.parse row.status := by
  rw [toRecord]

@[simp] theorem BucketRow.status_toRecord (row : BucketRow) :
    row.toRecord.status = Status.parse row.status := by
  rw [toRecord]

theorem BucketRow.parse_status_ofRecord (r : BucketRecord) :
    Status.parse (ofRecord r).status = r.status :=
  Status.parse_name r.status

variable {T : Terms} (t : Table) (bytes : String → Option Bytes)

/-- What the catalog holds, beside some storage. -/
def view : Snapshot :=
  ⟨fun name => (t.getBucket name).map (·.status), fun k => (t.getObject k).map (·.entry), bytes⟩

/-- Whether the sizes of all rows fit into their column. -/
def Sound : Prop := ∀ row ∈ t.objects, row.size < sizeBound

theorem objectRow?_eq (bucket name : String) :
    t.objectRow? bucket name = t.objects.find? (·.key == ⟨bucket, name⟩) := by
  rw [objectRow?]
  exact congrArg (fun p => t.objects.find? p) (funext fun o => o.hasKey_eq bucket name)

theorem object?_view (k : Key) :
    (t.view bytes).object? k = (t.objects.find? (·.key == k)).map fun row => row.toRecord.entry := by
  show ((t.objectRow? k.bucket k.name).map _).map _ = _
  rw [objectRow?_eq, Option.map_map]
  rfl

theorem bucket?_view (name : String) :
    (t.view bytes).bucket? name = (t.bucketRow? name).map fun row => Status.parse row.status := by
  simp [view, getBucket, Function.comp_def]

/-- Changing the rows of a bucket changes its state. -/
theorem view_changeBucket {name : String} {f : BucketRow → BucketRow} {s : Status} {row : BucketRow}
    (hf : ∀ o : BucketRow, o.name = name → (f o).name = name) (hs : Status.parse (f row).status = s)
    (hrow : t.bucketRow? name = some row) :
    ({ t with buckets := t.buckets.map fun o => if o.name == name then f o else o } : Table).view bytes =
      (t.view bytes).setBucket name s := by
  refine Snapshot.ext (funext fun b => ?_) rfl rfl
  rw [bucket?_view, Snapshot.bucket?_setBucket, bucket?_view, bucketRow?, find?_map_change BucketRow.name f name hf]
  split
  · rw [← bucketRow?, hrow, Option.map_some, Option.map_some, hs]
  · rfl

theorem getObject_eq (k : Key) : t.getObject k = (t.objects.find? (·.key == k)).map (·.toRecord) := by
  rw [getObject, objectRow?_eq]

/-- Looking up an object after the rows of one were changed. -/
theorem getObject_changeObject {r : ObjectRecord} {row : ObjectRow}
    (hrow : t.objectRow? r.bucket r.name = some row) (k : Key) :
    ({ t with objects := t.objects.map fun o =>
        if o.hasKey r.bucket r.name then .ofRecord r else o } : Table).getObject k =
      if k = r.key then some (ObjectRow.ofRecord r).toRecord else t.getObject k := by
  rw [objectRow?_eq] at hrow
  have hchange : (fun o : ObjectRow => if o.hasKey r.bucket r.name then ObjectRow.ofRecord r else o) =
      fun o => if o.key == r.key then ObjectRow.ofRecord r else o :=
    funext fun o => by rw [o.hasKey_eq]; rfl
  rw [getObject_eq, getObject_eq, hchange, find?_map_change ObjectRow.key (fun _ => .ofRecord r) r.key fun _ _ => rfl]
  split
  · rw [show t.objects.find? (·.key == r.key) = some row from hrow]
    rfl
  · rfl

/-- Looking up an object after a row was put in the place of others. -/
theorem getObject_putObject (r : ObjectRecord) (k : Key) : (t.putObject (.ofRecord r)).getObject k =
    if k = r.key then some (ObjectRow.ofRecord r).toRecord else t.getObject k := by
  have hfilter : (fun o : ObjectRow => !o.hasKey r.bucket r.name) =
      fun o => !(o.key == (ObjectRow.ofRecord r).key) :=
    funext fun o => by rw [o.hasKey_eq]; rfl
  rw [getObject_eq, getObject_eq, putObject]
  show ((t.objects.filter (fun o : ObjectRow => !o.hasKey r.bucket r.name) ++ [_]).find? _).map _ = _
  rw [hfilter, find?_filter_append ObjectRow.key]
  by_cases h : k = r.key
  · rw [if_pos h, if_pos (show k = (ObjectRow.ofRecord r).key from h)]
    rfl
  · rw [if_neg h, if_neg (show ¬ k = (ObjectRow.ofRecord r).key from h)]

/-- A table in which the record of an object is another one holds another entry. -/
theorem view_setObject {t' : Table} {r : ObjectRecord} (hbuckets : t'.buckets = t.buckets)
    (hobjects : ∀ k, t'.getObject k = if k = r.key then some (ObjectRow.ofRecord r).toRecord else t.getObject k) :
    t'.view bytes = (t.view bytes).setObject r.key r.entry := by
  refine Snapshot.ext ?_ (funext fun k => ?_) rfl
  · simp only [view, getBucket, bucketRow?, hbuckets, Snapshot.setObject]
  · rw [Snapshot.object?_setObject]
    show (t'.getObject k).map _ = if k = r.key then some r.entry else (t.getObject k).map _
    rw [hobjects]
    split
    · simp
    · rfl

theorem view_changeObject {r : ObjectRecord} {row : ObjectRow} (hrow : t.objectRow? r.bucket r.name = some row) :
    ({ t with objects := t.objects.map fun o =>
        if o.hasKey r.bucket r.name then .ofRecord r else o } : Table).view bytes =
      (t.view bytes).setObject r.key r.entry :=
  t.view_setObject bytes rfl (t.getObject_changeObject hrow)

theorem view_putObject (r : ObjectRecord) :
    (t.putObject (.ofRecord r)).view bytes = (t.view bytes).setObject r.key r.entry :=
  t.view_setObject bytes rfl (t.getObject_putObject r)

/-! ## Operations -/

variable {t}

theorem mem_putObject {row o : ObjectRow} (h : o ∈ (t.putObject row).objects) : o ∈ t.objects ∨ o = row := by
  rcases List.mem_append.mp h with h | h
  · exact .inl (List.mem_filter.mp h).1
  · exact .inr (List.mem_singleton.mp h)

theorem Sound.createBucket (ht : t.Sound) (r : BucketRecord) : (t.createBucket r).2.Sound := by
  rw [Table.createBucket]
  split
  · split <;> exact ht
  · exact ht

theorem Sound.setBucketStatus (ht : t.Sound) (name : String) (s : Status) :
    (t.setBucketStatus name s).2.Sound := by
  rw [Table.setBucketStatus]
  split <;> exact ht

theorem Sound.insertObject (ht : t.Sound) (r : ObjectRecord) : (t.insertObject r).2.Sound := by
  have hadd : (if r.size < sizeBound then ((.ok none : Except StoreError (Option Status)),
      t.putObject (.ofRecord r)) else (.error .sizeOutOfRange, t)).2.Sound := by
    split
    · rename_i hfits
      intro o ho
      rcases mem_putObject ho with ho | rfl
      · exact ht o ho
      · exact hfits
    · exact ht
  rw [Table.insertObject]
  split
  · split
    · split
      · exact hadd
      · exact ht
    · exact hadd
  · exact ht

theorem Sound.updateObject (ht : t.Sound) (r : ObjectRecord) : (t.updateObject r).2.Sound := by
  rw [Table.updateObject]
  split
  · rename_i hfits
    split
    · intro o ho
      obtain ⟨o', ho', rfl⟩ := List.mem_map.mp ho
      split
      · exact hfits
      · exact ht o' ho'
    · exact ht
  · exact ht

variable (t)

theorem allows_createBucket (r : BucketRecord) : (t.view bytes).Allows T (.createBucket r)
    (.ok (t.createBucket r).1) ((t.createBucket r).2.view bytes) := by
  rw [createBucket]
  split
  · rename_i row hrow
    have hstatus : (t.view bytes).bucket? r.name = some (Status.parse row.status) := by
      rw [bucket?_view, hrow, Option.map_some]
    split
    · rename_i hfree
      have hview := t.view_changeBucket bytes (f := fun _ => .ofRecord r) (fun _ _ => rfl)
        (BucketRow.parse_status_ofRecord r) hrow
      exact .inl ⟨by simpa [hstatus] using hfree, rfl, hview⟩
    · rename_i hfree
      exact .inr ⟨_, hstatus, by simpa using hfree, rfl, rfl⟩
  · rename_i hnone
    refine .inl ⟨by simp [bucket?_view, hnone], rfl, Snapshot.ext (funext fun b => ?_) rfl rfl⟩
    rw [bucketRow?] at hnone
    rw [bucket?_view, Snapshot.bucket?_setBucket, bucket?_view, bucketRow?, bucketRow?, List.find?_append]
    by_cases h : b = r.name
    · subst h
      simp [hnone, BucketRow.ofRecord, Status.parse_name]
    · have hother : (r.name == b) = false := beq_eq_false_iff_ne.mpr (Ne.symm h)
      simp [BucketRow.ofRecord, h, hother]

theorem allows_setBucketStatus (name : String) (s : Status) : (t.view bytes).Allows T
    (.setBucketStatus name s) (.ofExcept (t.setBucketStatus name s).1)
    ((t.setBucketStatus name s).2.view bytes) := by
  rw [setBucketStatus]
  split
  · rename_i row hrow
    have hview := t.view_changeBucket bytes (f := fun o => { o with status := s.name }) (fun _ h => h)
      s.parse_name hrow
    exact .inl ⟨by simp [bucket?_view, hrow], rfl, hview⟩
  · rename_i hnone
    exact .inr ⟨by simp [bucket?_view, hnone], _, rfl, rfl⟩

theorem allows_getObject (k : Key) :
    (t.view bytes).Allows T (.getObject k) (.ok (t.getObject k)) (t.view bytes) := by
  refine ⟨_, rfl, rfl, fun x hx => ?_, rfl⟩
  rw [getObject, objectRow?_eq] at hx
  obtain ⟨row, hrow, rfl⟩ := Option.map_eq_some_iff.mp hx
  have hkey : row.key = k := by simpa using List.find?_some hrow
  exact hkey

variable (hT : ∀ n, T.Fits n ↔ n < sizeBound)

include hT in
theorem allows_insertObject (r : ObjectRecord) : (t.view bytes).Allows T (.insertObject r)
    (.ofExcept (t.insertObject r).1) ((t.insertObject r).2.view bytes) := by
  have hobject : (t.view bytes).object? r.key =
      (t.objectRow? r.bucket r.name).map fun row => row.toRecord.entry := by
    rw [object?_view, objectRow?_eq]
    rfl
  rw [insertObject]
  split
  · rename_i hready
    have hbucket : (t.view bytes).bucket? r.bucket = some .ready := by
      obtain ⟨row, hrow, hstatus⟩ := Option.bind_eq_some_iff.mp hready
      rw [bucket?_view, hrow, Option.map_some, Status.parse, hstatus, Option.getD_some]
    have hadd : ((t.view bytes).object? r.key).all (·.status.isReplaceable) = true →
        (t.view bytes).Allows T (.insertObject r)
          (.ofExcept (if r.size < sizeBound then (.ok none, t.putObject (.ofRecord r))
            else (.error .sizeOutOfRange, t)).1)
          ((if r.size < sizeBound then ((.ok none : Except StoreError (Option Status)),
            t.putObject (.ofRecord r)) else (.error .sizeOutOfRange, t)).2.view bytes) := by
      intro hfree
      split
      · rename_i hfits
        exact .inl ⟨hfree, hbucket, (hT _).mpr hfits, rfl, t.view_putObject bytes r⟩
      · exact .inr (.inr ⟨_, rfl, rfl⟩)
    split
    · rename_i row hrow
      rw [hrow] at hobject
      split
      · rename_i hfree
        exact hadd (by simpa [hobject] using hfree)
      · rename_i hfree
        exact .inr (.inl ⟨Status.parse row.status, by simp [hobject], by simpa using hfree, rfl, rfl⟩)
    · rename_i hnone
      rw [hnone] at hobject
      exact hadd (by simp [hobject])
  · exact .inr (.inr ⟨_, rfl, rfl⟩)

include hT in
theorem allows_updateObject (r : ObjectRecord) : (t.view bytes).Allows T (.updateObject r)
    (.ofExcept (t.updateObject r).1) ((t.updateObject r).2.view bytes) := by
  have hobject : (t.view bytes).object? r.key =
      (t.objectRow? r.bucket r.name).map fun row => row.toRecord.entry := by
    rw [object?_view, objectRow?_eq]
    rfl
  rw [updateObject]
  split
  · rename_i hfits
    split
    · rename_i row hrow
      refine .inl ⟨(hT _).mpr hfits, by simp [hobject, hrow], rfl, t.view_changeObject bytes hrow⟩
    · rename_i hnone
      exact .inr ⟨by simp [hobject, hnone], _, rfl, rfl⟩
  · rename_i hfits
    exact .inr ⟨fun h => hfits ((hT _).mp h.1), _, rfl, rfl⟩

include hT in
/-- A listing is of what is there, and of all of it. -/
theorem allows_listObjects (ht : t.Sound) (bucket : String) (f : Filter) :
    (t.view bytes).Allows T (.listObjects bucket f) (.ok (t.listObjects bucket f)) (t.view bytes) := by
  refine ⟨_, rfl, rfl, fun r hr => ?_, fun hf name e he hstatus => ?_⟩
  · obtain ⟨hr, -⟩ := List.mem_filter.mp hr
    obtain ⟨row, hrow, rfl⟩ := List.mem_map.mp hr
    obtain ⟨hmem, hbucket⟩ := List.mem_filter.mp (List.mem_mergeSort.mp hrow)
    simp only [Bool.and_eq_true, beq_iff_eq] at hbucket
    refine ⟨hbucket.1, ?_, (hT _).mpr (ht row hmem)⟩
    rw [object?_view, Option.isSome_map, List.find?_isSome]
    exact ⟨row, hmem, by simp [ObjectRow.key, ObjectRow.toRecord, ObjectRecord.key]⟩
  · rw [object?_view] at he
    obtain ⟨row, hrow, rfl⟩ := Option.map_eq_some_iff.mp he
    have hkey : row.key = ⟨bucket, name⟩ := by simpa using List.find?_some hrow
    have hbucket : row.bucket = bucket := congrArg Key.bucket hkey
    have hstart : startsWith row.name (f.nameStart.getD "") = true := by
      rw [hf]
      simp [startsWith, leading]
    refine ⟨row.toRecord, List.mem_filter.mpr ⟨List.mem_map.mpr ⟨row, ?_, rfl⟩, ?_⟩, hkey, rfl⟩
    · rw [List.mem_mergeSort, List.mem_filter]
      exact ⟨List.mem_of_find?_eq_some hrow, by simp [hbucket, hstart]⟩
    · rw [Filter.accepts_statuses hf]
      rcases hstatus with hnil | hstatus
      · simp [hnil]
      · rw [ObjectRecord.status_entry] at hstatus
        rw [List.contains_iff_mem.mpr hstatus, Bool.or_true]

end Table

end Depot
