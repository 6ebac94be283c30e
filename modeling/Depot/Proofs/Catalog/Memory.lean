import Depot.Catalog.Memory
import Depot.Proofs.SortedMap
import Depot.Proofs.Store.Snapshot

/-!
# What the catalog in memory holds

The operations of the catalog in memory, as a store with any storage sees them. It takes every size, and
fails only when it is told to change what is not there.

## Main results

* `MemoryCatalog.Sound` — every record is under its own key.
* `MemoryCatalog.allows_listObjects` — a listing is of what is there, and of all of it.
-/

namespace Depot

/-- A filter on states accepts the records in these states. -/
theorem Filter.accepts_statuses {f : Filter} (hf : f = { statuses := f.statuses }) (r : ObjectRecord) :
    f.accepts r = (f.statuses.isEmpty || f.statuses.contains r.status) := by
  rw [hf]
  simp [accepts, holds]

namespace MemoryCatalog

variable {T : Terms} (c : MemoryCatalog) (bytes : String → Option Bytes)

/-- What the catalog holds, beside some storage. -/
def view : Snapshot :=
  ⟨fun name => (c.getBucket name).map (·.status), fun k => (c.getObject k).map (·.entry), bytes⟩

/-- Whether every record is under its own key. -/
def Sound : Prop := ∀ e ∈ c.objects, e.2.key = e.1

theorem view_setBucket {buckets : SortedMap String BucketRecord} {name : String} {r : BucketRecord}
    (h : buckets = SortedMap.insert c.buckets name r) :
    ({ c with buckets := buckets } : MemoryCatalog).view bytes = (c.view bytes).setBucket name r.status := by
  subst h
  refine Snapshot.ext (funext fun b => ?_) rfl rfl
  show (SortedMap.get? _ b).map _ = _
  rw [SortedMap.get?_insert, Snapshot.bucket?_setBucket]
  split <;> rfl

theorem view_setObject {objects : SortedMap Key ObjectRecord} {r : ObjectRecord}
    (h : objects = SortedMap.insert c.objects r.key r) :
    ({ c with objects := objects } : MemoryCatalog).view bytes = (c.view bytes).setObject r.key r.entry := by
  subst h
  refine Snapshot.ext rfl (funext fun k => ?_) rfl
  show (SortedMap.get? _ k).map _ = _
  rw [SortedMap.get?_insert, Snapshot.object?_setObject]
  split <;> rfl

variable {c}

theorem Sound.insert (hc : c.Sound) (r : ObjectRecord) :
    Sound { c with objects := SortedMap.insert c.objects r.key r } := by
  intro e he
  rcases SortedMap.mem_of_mem_insert he with rfl | he
  · rfl
  · exact hc e he

theorem Sound.createBucket (hc : c.Sound) (r : BucketRecord) : (c.createBucket r).2.Sound := by
  rw [MemoryCatalog.createBucket]
  repeat' split
  all_goals exact hc

theorem Sound.setBucketStatus (hc : c.Sound) (name : String) (t : Status) :
    (c.setBucketStatus name t).2.Sound := by
  rw [MemoryCatalog.setBucketStatus]
  split <;> exact hc

theorem Sound.insertObject (hc : c.Sound) (r : ObjectRecord) : (c.insertObject r).2.Sound := by
  rw [MemoryCatalog.insertObject]
  repeat' split
  all_goals first | exact hc | exact hc.insert r

theorem Sound.updateObject (hc : c.Sound) (r : ObjectRecord) : (c.updateObject r).2.Sound := by
  rw [MemoryCatalog.updateObject]
  split
  · exact hc.insert r
  · exact hc

variable (c)

theorem allows_createBucket (r : BucketRecord) : (c.view bytes).Allows T (.createBucket r)
    (.ok (c.createBucket r).1) ((c.createBucket r).2.view bytes) := by
  rw [createBucket]
  split
  · rename_i s hs
    split
    · rename_i hfree
      exact .inl ⟨by simp [view, getBucket, hs, hfree], rfl, c.view_setBucket bytes rfl⟩
    · rename_i hfree
      exact .inr ⟨s, hs, by simpa using hfree, rfl, rfl⟩
  · rename_i hnone
    exact .inl ⟨by simp [view, getBucket, hnone], rfl, c.view_setBucket bytes rfl⟩

theorem allows_setBucketStatus (name : String) (t : Status) : (c.view bytes).Allows T
    (.setBucketStatus name t) (.ofExcept (c.setBucketStatus name t).1)
    ((c.setBucketStatus name t).2.view bytes) := by
  rw [setBucketStatus]
  split
  · rename_i r hr
    exact .inl ⟨by simp [view, getBucket, hr], rfl, c.view_setBucket bytes rfl⟩
  · rename_i hnone
    exact .inr ⟨by simp [view, getBucket, hnone], _, rfl, rfl⟩

theorem allows_getObject (hc : c.Sound) (k : Key) :
    (c.view bytes).Allows T (.getObject k) (.ok (c.getObject k)) (c.view bytes) :=
  ⟨_, rfl, rfl, fun _ hx => hc _ (SortedMap.mem_of_get? hx), rfl⟩

theorem allows_insertObject (hT : ∀ n, T.Fits n) (r : ObjectRecord) : (c.view bytes).Allows T
    (.insertObject r) (.ofExcept (c.insertObject r).1) ((c.insertObject r).2.view bytes) := by
  rw [insertObject]
  split
  · rename_i hready
    split
    · rename_i s hs
      split
      · rename_i hfree
        refine .inl ⟨?_, hready, hT _, rfl, c.view_setObject bytes rfl⟩
        obtain ⟨x, hx, rfl⟩ := Option.map_eq_some_iff.mp hs
        simpa [view, getObject, hx] using hfree
      · rename_i hfree
        refine .inr (.inl ⟨s, ?_, by simpa using hfree, rfl, rfl⟩)
        obtain ⟨x, hx, rfl⟩ := Option.map_eq_some_iff.mp hs
        simp [view, getObject, hx, ObjectRecord.entry]
    · rename_i hnone
      refine .inl ⟨?_, hready, hT _, rfl, c.view_setObject bytes rfl⟩
      simp [view, getObject, Option.map_eq_none_iff.mp hnone]
  · exact .inr (.inr ⟨_, rfl, rfl⟩)

theorem allows_updateObject (hT : ∀ n, T.Fits n) (r : ObjectRecord) : (c.view bytes).Allows T
    (.updateObject r) (.ofExcept (c.updateObject r).1) ((c.updateObject r).2.view bytes) := by
  rw [updateObject]
  split
  · rename_i x hx
    exact .inl ⟨hT _, by simp [view, getObject, hx], rfl, c.view_setObject bytes rfl⟩
  · rename_i hnone
    exact .inr ⟨by simp [view, getObject, hnone], _, rfl, rfl⟩

/-- A listing is of what is there, and of all of it. -/
theorem allows_listObjects (hc : c.Sound) (hT : ∀ n, T.Fits n) (bucket : String) (f : Filter) :
    (c.view bytes).Allows T (.listObjects bucket f) (.ok (c.listObjects bucket f)) (c.view bytes) := by
  refine ⟨_, rfl, rfl, fun r hr => ?_, fun hf name e he hstatus => ?_⟩
  · obtain ⟨⟨k, x⟩, hx, rfl⟩ := List.mem_map.mp hr
    obtain ⟨hmem, haccept⟩ := List.mem_filter.mp hx
    obtain rfl : x.key = k := hc _ hmem
    have hthere := SortedMap.isSome_get?_of_mem hmem
    simp only [Bool.and_eq_true, beq_iff_eq] at haccept
    exact ⟨haccept.1, by simpa [view, getObject] using hthere, hT _⟩
  · obtain ⟨r, hr, rfl⟩ := Option.map_eq_some_iff.mp he
    have hmem := SortedMap.mem_of_get? hr
    refine ⟨r, List.mem_map.mpr ⟨(⟨bucket, name⟩, r), List.mem_filter.mpr ⟨hmem, ?_⟩, rfl⟩, hc _ hmem, rfl⟩
    rw [Filter.accepts_statuses hf]
    rcases hstatus with hnil | hstatus
    · simp [hnil]
    · simpa using .inr hstatus

end MemoryCatalog

end Depot
