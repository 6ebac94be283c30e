import Depot.Catalog
import Depot.Proofs.Catalog.Table
import Mathlib.Data.List.Sort

/-!
# One record for each key

Tables have one row for each primary key, and the maps in memory are sorted with every record under its own
key. So what a catalog lists is in the strict order of names, and looking up finds all of it.

## Main results

* `Table.Keyed.mem_objects`, `MemoryCatalog.Ordered.mem_objects` — the records are those that looking up finds.
* `Catalog.Arranged.mem_listObjects`, `Catalog.Arranged.pairwise_listObjects` — a listing of either catalog is of
  the records that a filter accepts, in the strict order of names.
-/

namespace Depot

section Rows

variable {α κ : Type} [DecidableEq κ] (key : α → κ)

theorem map_key_change {f : α → α} {k : κ} (hf : ∀ o, key o = k → key (f o) = k) (rows : List α) :
    (rows.map fun o => if key o == k then f o else o).map key = rows.map key := by
  rw [List.map_map]
  refine List.map_congr_left fun o _ => ?_
  rw [Function.comp_apply]
  split
  · rename_i ho
    rw [hf o (beq_iff_eq.mp ho), beq_iff_eq.mp ho]
  · rfl

theorem nodup_filter_append {rows : List α} (h : (rows.map key).Nodup) (row : α) :
    ((rows.filter (fun o => !(key o == key row)) ++ [row]).map key).Nodup := by
  rw [List.map_append, List.nodup_append]
  refine ⟨h.sublist (List.filter_sublist.map key), List.nodup_singleton _, ?_⟩
  intro a ha b hb
  obtain ⟨o, ho, rfl⟩ := List.mem_map.mp ha
  obtain rfl := List.mem_singleton.mp hb
  simpa using (List.mem_filter.mp ho).2

/-- With one row for each key, the rows are those that looking up finds. -/
theorem find?_key_iff {rows : List α} (h : (rows.map key).Nodup) {k : κ} {row : α} :
    rows.find? (key · == k) = some row ↔ row ∈ rows ∧ key row = k := by
  refine ⟨fun hrow => ⟨List.mem_of_find?_eq_some hrow, by simpa using List.find?_some hrow⟩, ?_⟩
  rintro ⟨hmem, rfl⟩
  obtain ⟨found, hfound⟩ := Option.isSome_iff_exists.mp
    (List.find?_isSome.mpr ⟨row, hmem, by simp⟩ : (rows.find? (key · == key row)).isSome)
  have hsame : key found = key row := by simpa using List.find?_some hfound
  rw [hfound, List.inj_on_of_nodup_map h (List.mem_of_find?_eq_some hfound) hmem hsame]

variable {rows : List α} (name : α → String)

/-- Rows of different names are sorted into their strict order. -/
theorem pairwise_lt_mergeSort (h : (rows.map name).Nodup) :
    (rows.mergeSort fun a b => name a ≤ name b).Pairwise fun a b => name a < name b := by
  have hle : (rows.mergeSort fun a b => name a ≤ name b).Pairwise fun a b =>
      decide (name a ≤ name b) = true := by
    apply List.pairwise_mergeSort
    · intro a b c hab hbc
      exact decide_eq_true (le_trans (of_decide_eq_true hab) (of_decide_eq_true hbc))
    · intro a b
      rcases le_total (name a) (name b) with h | h <;> simp [h]
  have hne : (rows.mergeSort fun a b => name a ≤ name b).Pairwise fun a b => name a ≠ name b := by
    have hperm := (List.mergeSort_perm rows fun a b => name a ≤ name b).map name
    exact List.pairwise_map.mp (hperm.nodup_iff.mpr h)
  exact (hle.and hne).imp fun hlt => lt_of_le_of_ne (of_decide_eq_true hlt.1) hlt.2

/-- Two lists in the strict order of names are equal if they have the same members. -/
theorem eq_of_pairwise_lt {l l' : List α} (hl : l.Pairwise fun a b => name a < name b)
    (hl' : l'.Pairwise fun a b => name a < name b) (h : ∀ a, a ∈ l ↔ a ∈ l') : l = l' := by
  have : Std.Irrefl fun a b => name a < name b := ⟨fun a => lt_irrefl (name a)⟩
  have : Std.Antisymm fun a b => name a < name b := ⟨fun a b hab hba => absurd hba hab.asymm⟩
  exact hl.eq_of_mem_iff hl' (fun {a} => h a)

end Rows

namespace Table

variable {t : Table}

/-- Whether the rows of both tables have different primary keys. -/
structure Keyed (t : Table) : Prop where
  buckets : (t.buckets.map (·.name)).Nodup
  objects : (t.objects.map (·.key)).Nodup

theorem keyed_empty : Keyed {} := ⟨.nil, .nil⟩

theorem Keyed.mem_buckets (ht : t.Keyed) {r : BucketRecord} :
    (∃ row ∈ t.buckets, row.toRecord = r) ↔ t.getBucket r.name = some r := by
  rw [getBucket, bucketRow?, Option.map_eq_some_iff]
  refine exists_congr fun row => ?_
  rw [find?_key_iff BucketRow.name ht.buckets, and_assoc]
  refine and_congr_right fun _ => ⟨?_, And.right⟩
  rintro rfl
  exact ⟨rfl, rfl⟩

theorem Keyed.mem_objects (ht : t.Keyed) {r : ObjectRecord} :
    (∃ row ∈ t.objects, row.toRecord = r) ↔ t.getObject r.key = some r := by
  rw [getObject_eq, Option.map_eq_some_iff]
  refine exists_congr fun row => ?_
  rw [find?_key_iff ObjectRow.key ht.objects, and_assoc]
  refine and_congr_right fun _ => ⟨?_, And.right⟩
  rintro rfl
  exact ⟨rfl, rfl⟩

/-- A text that is free of NUL is compared as a whole. -/
theorem startsWith_of_isPrefixOf {s start : String} (hnul : Char.ofNat 0 ∉ start.toList)
    (h : start.toList.isPrefixOf s.toList = true) : startsWith s start = true := by
  have hall : ∀ c ∈ start.toList, decide (c ≠ Char.ofNat 0) = true := by
    intro c hc
    exact decide_eq_true fun hzero => hnul (hzero ▸ hc)
  have hstart : leading start = start.toList := by
    rw [leading, ← List.append_nil start.toList, List.takeWhile_append_of_pos hall, List.takeWhile_nil]
  obtain ⟨rest, hrest⟩ := List.isPrefixOf_iff_prefix.mp h
  have hleading : leading s = start.toList ++ rest.takeWhile (· ≠ Char.ofNat 0) := by
    rw [leading, ← hrest, List.takeWhile_append_of_pos hall]
  rw [startsWith, hstart, hleading, List.take_left]
  exact beq_self_eq_true _

theorem Keyed.of_mem_listObjects (ht : t.Keyed) {bucket : String} {f : Filter} {r : ObjectRecord}
    (h : r ∈ t.listObjects bucket f) : t.getObject r.key = some r ∧ r.bucket = bucket ∧ f.accepts r = true := by
  rw [← ht.mem_objects]
  simp only [listObjects, List.mem_filter, List.mem_map, List.mem_mergeSort, Bool.and_eq_true, beq_iff_eq] at h
  obtain ⟨⟨row, ⟨hmem, hbucket, -⟩, rfl⟩, haccepts⟩ := h
  exact ⟨⟨row, hmem, rfl⟩, hbucket, haccepts⟩

/-- A listing is of the records of a bucket that a filter accepts. -/
theorem Keyed.mem_listObjects (ht : t.Keyed) {bucket : String} {f : Filter}
    (hstart : ∀ start ∈ f.nameStart, Char.ofNat 0 ∉ start.toList) {r : ObjectRecord} :
    r ∈ t.listObjects bucket f ↔ t.getObject r.key = some r ∧ r.bucket = bucket ∧ f.accepts r = true := by
  refine ⟨ht.of_mem_listObjects, fun h => ?_⟩
  rw [← ht.mem_objects] at h
  obtain ⟨⟨row, hmem, rfl⟩, hbucket, haccepts⟩ := h
  have hcompared : startsWith row.name (f.nameStart.getD "") = true := by
    cases hname : f.nameStart with
    | none => exact startsWith_of_isPrefixOf (by simp) (by simp)
    | some start =>
      refine startsWith_of_isPrefixOf (hstart start hname) ?_
      simp only [Filter.accepts, Filter.holds, hname, Option.all_some, Bool.and_eq_true] at haccepts
      exact haccepts.1.1.1.1.1
  simp only [listObjects, List.mem_filter, List.mem_map, List.mem_mergeSort, Bool.and_eq_true, beq_iff_eq]
  exact ⟨⟨row, ⟨hmem, hbucket, hcompared⟩, rfl⟩, haccepts⟩

/-- Within a bucket, the names of the rows are different. -/
theorem Keyed.nodup_names (ht : t.Keyed) {p : ObjectRow → Bool} {bucket : String}
    (hp : ∀ row, p row = true → row.bucket = bucket) : ((t.objects.filter p).map (·.name)).Nodup := by
  have hkeys : (t.objects.filter p).Pairwise fun a b => a.key ≠ b.key :=
    (List.pairwise_map.mp ht.objects).filter p
  refine List.pairwise_map.mpr (hkeys.imp_of_mem fun {a b} ha hb hne hname => hne ?_)
  rw [ObjectRow.key, ObjectRow.key, hname, hp a (List.mem_filter.mp ha).2, hp b (List.mem_filter.mp hb).2]

theorem Keyed.createBucket (ht : t.Keyed) (r : BucketRecord) : (t.createBucket r).2.Keyed := by
  rw [Table.createBucket]
  split
  · split
    · have hnames := map_key_change BucketRow.name (f := fun _ => .ofRecord r) (k := r.name) (fun _ _ => rfl)
        t.buckets
      exact ⟨hnames ▸ ht.buckets, ht.objects⟩
    · exact ht
  · rename_i hnone
    refine ⟨?_, ht.objects⟩
    rw [List.map_append, List.nodup_append]
    refine ⟨ht.buckets, List.nodup_singleton _, ?_⟩
    intro a ha b hb
    obtain ⟨row, hrow, rfl⟩ := List.mem_map.mp ha
    obtain rfl := List.mem_singleton.mp hb
    have hother := List.find?_eq_none.mp hnone row hrow
    simpa [BucketRow.ofRecord] using hother

theorem Keyed.setBucketStatus (ht : t.Keyed) (name : String) (s : Status) :
    (t.setBucketStatus name s).2.Keyed := by
  rw [Table.setBucketStatus]
  split
  · have hnames := map_key_change BucketRow.name (f := fun o => { o with status := s.name }) (k := name)
      (fun _ h => h) t.buckets
    exact ⟨hnames ▸ ht.buckets, ht.objects⟩
  · exact ht

theorem Keyed.putObject (ht : t.Keyed) (row : ObjectRow) : (t.putObject row).Keyed := by
  have hfilter : (fun o : ObjectRow => !o.hasKey row.bucket row.name) = fun o => !(o.key == row.key) :=
    funext fun o => by rw [o.hasKey_eq]; rfl
  refine ⟨ht.buckets, ?_⟩
  rw [Table.putObject, hfilter]
  exact nodup_filter_append ObjectRow.key ht.objects row

theorem Keyed.insertObject (ht : t.Keyed) (r : ObjectRecord) : (t.insertObject r).2.Keyed := by
  rw [Table.insertObject]
  repeat' split
  all_goals first | exact ht | exact ht.putObject _

theorem Keyed.updateObject (ht : t.Keyed) (r : ObjectRecord) : (t.updateObject r).2.Keyed := by
  have hchange : (fun o : ObjectRow => if o.hasKey r.bucket r.name then ObjectRow.ofRecord r else o) =
      fun o => if o.key == r.key then ObjectRow.ofRecord r else o :=
    funext fun o => by rw [o.hasKey_eq]; rfl
  rw [Table.updateObject]
  repeat' split
  · refine ⟨ht.buckets, ?_⟩
    show (List.map _ (List.map _ _)).Nodup
    rw [hchange, map_key_change ObjectRow.key (f := fun _ => .ofRecord r) (k := r.key) fun _ _ => rfl]
    exact ht.objects
  all_goals exact ht

theorem Keyed.pairwise_listBuckets (ht : t.Keyed) : t.listBuckets.Pairwise fun a b => a.name < b.name :=
  List.pairwise_map.mpr (pairwise_lt_mergeSort BucketRow.name ht.buckets)

theorem Keyed.pairwise_listObjects (ht : t.Keyed) (bucket : String) (f : Filter) :
    (t.listObjects bucket f).Pairwise fun a b => a.name < b.name := by
  refine List.Pairwise.filter _ (List.pairwise_map.mpr (pairwise_lt_mergeSort ObjectRow.name ?_))
  exact ht.nodup_names fun row hrow => beq_iff_eq.mp (Bool.and_eq_true_iff.mp hrow).1

end Table

namespace MemoryCatalog

variable {c : MemoryCatalog}

/-- Whether the maps are sorted, and every record is under its own key. -/
structure Ordered (c : MemoryCatalog) : Prop where
  buckets : SortedMap.Sorted c.buckets
  objects : SortedMap.Sorted c.objects
  named : ∀ e ∈ c.buckets, e.2.name = e.1
  sound : c.Sound

theorem ordered_empty : Ordered {} :=
  ⟨.nil, .nil, fun _ h => (List.not_mem_nil h).elim, fun _ h => (List.not_mem_nil h).elim⟩

theorem Ordered.insertBucket (hc : c.Ordered) {name : String} {r : BucketRecord} (hname : r.name = name) :
    Ordered { c with buckets := SortedMap.insert c.buckets name r } := by
  refine ⟨hc.buckets.insert name r, hc.objects, fun e he => ?_, hc.sound⟩
  rcases SortedMap.mem_of_mem_insert he with rfl | he
  · exact hname
  · exact hc.named e he

theorem Ordered.putObject (hc : c.Ordered) (r : ObjectRecord) :
    Ordered { c with objects := SortedMap.insert c.objects r.key r } :=
  ⟨hc.buckets, hc.objects.insert r.key r, hc.named, hc.sound.insert r⟩

theorem Ordered.name_getBucket (hc : c.Ordered) {name : String} {r : BucketRecord}
    (h : c.getBucket name = some r) : r.name = name :=
  hc.named _ (SortedMap.mem_of_get? h)

theorem Ordered.createBucket (hc : c.Ordered) (r : BucketRecord) : (c.createBucket r).2.Ordered := by
  rw [MemoryCatalog.createBucket]
  repeat' split
  all_goals first | exact hc | exact hc.insertBucket rfl

theorem Ordered.setBucketStatus (hc : c.Ordered) (name : String) (s : Status) :
    (c.setBucketStatus name s).2.Ordered := by
  rw [MemoryCatalog.setBucketStatus]
  split
  · rename_i r hr
    have hname : r.name = name := hc.name_getBucket hr
    exact hc.insertBucket hname
  · exact hc

theorem Ordered.insertObject (hc : c.Ordered) (r : ObjectRecord) : (c.insertObject r).2.Ordered := by
  rw [MemoryCatalog.insertObject]
  repeat' split
  all_goals first | exact hc | exact hc.putObject r

theorem Ordered.updateObject (hc : c.Ordered) (r : ObjectRecord) : (c.updateObject r).2.Ordered := by
  rw [MemoryCatalog.updateObject]
  split
  · exact hc.putObject r
  · exact hc

theorem Ordered.mem_buckets (hc : c.Ordered) {r : BucketRecord} :
    (∃ e ∈ c.buckets, e.2 = r) ↔ c.getBucket r.name = some r := by
  rw [getBucket, hc.buckets.get?_eq_some_iff]
  constructor
  · rintro ⟨⟨name, r⟩, hmem, rfl⟩
    obtain rfl : r.name = name := hc.named _ hmem
    exact hmem
  · intro hmem
    exact ⟨_, hmem, rfl⟩

theorem Ordered.mem_objects (hc : c.Ordered) {r : ObjectRecord} :
    (∃ e ∈ c.objects, e.2 = r) ↔ c.getObject r.key = some r := by
  rw [getObject, hc.objects.get?_eq_some_iff]
  constructor
  · rintro ⟨⟨k, r⟩, hmem, rfl⟩
    obtain rfl : r.key = k := hc.sound _ hmem
    exact hmem
  · intro hmem
    exact ⟨_, hmem, rfl⟩

/-- A listing is of the records of a bucket that a filter accepts. -/
theorem Ordered.mem_listObjects (hc : c.Ordered) {bucket : String} {f : Filter} {r : ObjectRecord} :
    r ∈ c.listObjects bucket f ↔ c.getObject r.key = some r ∧ r.bucket = bucket ∧ f.accepts r = true := by
  rw [← hc.mem_objects]
  simp only [listObjects, List.mem_filter, List.mem_map, Bool.and_eq_true, beq_iff_eq]
  constructor
  · rintro ⟨e, ⟨hmem, hbucket, haccepts⟩, rfl⟩
    refine ⟨⟨e, hmem, rfl⟩, ?_, haccepts⟩
    rw [← hbucket, ← hc.sound e hmem]
    rfl
  · rintro ⟨⟨e, hmem, rfl⟩, hbucket, haccepts⟩
    refine ⟨e, ⟨hmem, ?_, haccepts⟩, rfl⟩
    rw [← hbucket, ← hc.sound e hmem]
    rfl

theorem Ordered.pairwise_listBuckets (hc : c.Ordered) :
    c.listBuckets.Pairwise fun a b => a.name < b.name := by
  refine List.pairwise_map.mpr (hc.buckets.imp_of_mem fun {a b} ha hb hlt => ?_)
  rw [hc.named a ha, hc.named b hb]
  exact compare_lt_iff_lt.mp hlt

theorem Ordered.pairwise_listObjects (hc : c.Ordered) (bucket : String) (f : Filter) :
    (c.listObjects bucket f).Pairwise fun a b => a.name < b.name := by
  refine List.pairwise_map.mpr ((List.Pairwise.filter _ hc.objects).imp_of_mem fun {a b} ha hb hlt => ?_)
  obtain ⟨ha, hina⟩ := List.mem_filter.mp ha
  obtain ⟨hb, hinb⟩ := List.mem_filter.mp hb
  simp only [Bool.and_eq_true, beq_iff_eq] at hina hinb
  have hkeya : a.1 = ⟨bucket, a.2.name⟩ := by rw [← hc.sound a ha, ← hina.1, ← hc.sound a ha]; rfl
  have hkeyb : b.1 = ⟨bucket, b.2.name⟩ := by rw [← hc.sound b hb, ← hinb.1, ← hc.sound b hb]; rfl
  rw [hkeya, hkeyb] at hlt
  exact (Key.compare_mk_eq_lt_iff bucket).mp hlt

end MemoryCatalog

/-! ## Either catalog -/

namespace Catalog

variable {c : Catalog}

theorem eq_of_open {engine : String} (h : open' engine = .ok c) : c = memory {} ∨ c = table {} := by
  rw [open'] at h
  split at h
  · cases h
    exact .inr rfl
  · split at h <;> cases h
    exact .inl rfl

/-- Whether a catalog has one record for each key. -/
def Arranged : Catalog → Prop
  | memory c => c.Ordered
  | table t => t.Keyed

theorem arranged_open {engine : String} (h : open' engine = .ok c) : c.Arranged := by
  rcases eq_of_open h with rfl | rfl
  · exact MemoryCatalog.ordered_empty
  · exact Table.keyed_empty

theorem Arranged.createBucket (hc : c.Arranged) (r : BucketRecord) : (c.createBucket r).2.Arranged := by
  cases c with
  | memory c => exact MemoryCatalog.Ordered.createBucket hc r
  | table t => exact Table.Keyed.createBucket hc r

theorem Arranged.setBucketStatus (hc : c.Arranged) (name : String) (s : Status) :
    (c.setBucketStatus name s).2.Arranged := by
  cases c with
  | memory c => exact MemoryCatalog.Ordered.setBucketStatus hc name s
  | table t => exact Table.Keyed.setBucketStatus hc name s

theorem Arranged.insertObject (hc : c.Arranged) (r : ObjectRecord) : (c.insertObject r).2.Arranged := by
  cases c with
  | memory c => exact MemoryCatalog.Ordered.insertObject hc r
  | table t => exact Table.Keyed.insertObject hc r

theorem Arranged.updateObject (hc : c.Arranged) (r : ObjectRecord) : (c.updateObject r).2.Arranged := by
  cases c with
  | memory c => exact MemoryCatalog.Ordered.updateObject hc r
  | table t => exact Table.Keyed.updateObject hc r

theorem Arranged.key_getObject (hc : c.Arranged) {k : Key} {r : ObjectRecord} (h : c.getObject k = some r) :
    r.key = k := by
  cases c with
  | memory c => exact hc.sound _ (SortedMap.mem_of_get? h)
  | table t =>
    rw [getObject, Table.getObject_eq, Option.map_eq_some_iff] at h
    obtain ⟨row, hrow, rfl⟩ := h
    have hkey : row.key = k := by simpa using List.find?_some hrow
    exact hkey

theorem Arranged.of_mem_listObjects (hc : c.Arranged) {bucket : String} {f : Filter} {r : ObjectRecord}
    (h : r ∈ c.listObjects bucket f) : c.getObject r.key = some r ∧ r.bucket = bucket ∧ f.accepts r = true := by
  cases c with
  | memory c => exact (MemoryCatalog.Ordered.mem_listObjects hc).mp h
  | table t => exact Table.Keyed.of_mem_listObjects hc h

/-- A listing is of the records of a bucket that a filter accepts. -/
theorem Arranged.mem_listObjects (hc : c.Arranged) {bucket : String} {f : Filter}
    (hstart : ∀ start ∈ f.nameStart, Char.ofNat 0 ∉ start.toList) {r : ObjectRecord} :
    r ∈ c.listObjects bucket f ↔ c.getObject r.key = some r ∧ r.bucket = bucket ∧ f.accepts r = true := by
  cases c with
  | memory c => exact MemoryCatalog.Ordered.mem_listObjects hc
  | table t => exact Table.Keyed.mem_listObjects hc hstart

theorem Arranged.pairwise_listObjects (hc : c.Arranged) (bucket : String) (f : Filter) :
    (c.listObjects bucket f).Pairwise fun a b => a.name < b.name := by
  cases c with
  | memory c => exact MemoryCatalog.Ordered.pairwise_listObjects hc bucket f
  | table t => exact Table.Keyed.pairwise_listObjects hc bucket f

end Catalog

end Depot
