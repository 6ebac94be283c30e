import Depot.Proofs.Store.Engines

/-!
# Ledgers

A ledger is what a store holds together with the ids of its records. The contract of calls says nothing
of ids, and lets a catalog refuse a new record for any reason; that of a ledger says which record carries
which id, and that a record is refused only where its bucket is not ready or its size does not fit.

## Main results

* `Ledger.Allows.eq`, `Ledger.allows_insertObject`, `Ledger.allows_updateObject` — what calls make of a ledger.
* `Store.registry` — a store with its storage in memory keeps the contract of ledgers.
-/

namespace Depot

/-- What a store holds, and the ids of its records. -/
structure Ledger extends Snapshot where
  id? : Key → Option String

namespace Ledger

variable {T : Terms} {x y : Ledger}

/-- A record in the place of what was there. -/
def record (x : Ledger) (r : ObjectRecord) : Ledger where
  toSnapshot := x.setObject r.key r.entry
  id? k := if k = r.key then some r.id else x.id? k

/-- Other bytes under a path. -/
def store (x : Ledger) (path : String) (b : Option Bytes) : Ledger := { x with toSnapshot := x.setBytes path b }

/-- A bucket in another state. -/
def bucket (x : Ledger) (name : String) (t : Status) : Ledger := { x with toSnapshot := x.setBucket name t }

section Updates

variable (r : ObjectRecord) (path name : String) (b : Option Bytes) (t : Status) (k : Key)

@[simp] theorem bucket?_record : (x.record r).bucket? = x.bucket? := rfl

@[simp] theorem object?_record : (x.record r).object? k = if k = r.key then some r.entry else x.object? k := rfl

@[simp] theorem bytes?_record : (x.record r).bytes? = x.bytes? := rfl

@[simp] theorem id?_record : (x.record r).id? k = if k = r.key then some r.id else x.id? k := rfl

@[simp] theorem bucket?_store : (x.store path b).bucket? = x.bucket? := rfl

@[simp] theorem object?_store : (x.store path b).object? = x.object? := rfl

@[simp] theorem bytes?_store (other : String) :
    (x.store path b).bytes? other = if other = path then b else x.bytes? other := rfl

@[simp] theorem id?_store : (x.store path b).id? = x.id? := rfl

@[simp] theorem bucket?_bucket (other : String) :
    (x.bucket name t).bucket? other = if other = name then some t else x.bucket? other := rfl

@[simp] theorem object?_bucket : (x.bucket name t).object? = x.object? := rfl

end Updates

/-- The ids after a call. -/
def idsAfter (ids : Key → Option String) : (c : Call) → Reply c.Answer → Key → Option String
  | .insertObject r, .ok none | .updateObject r, .ok _ => fun k => if k = r.key then some r.id else ids k
  | _, _ => ids

/-- Whether a new record is refused with good reason only. -/
def Admits (T : Terms) (v : Snapshot) : (c : Call) → Reply c.Answer → Prop
  | .insertObject r, .failed _ => ¬ (v.bucket? r.bucket = some .ready ∧ T.Fits r.size)
  | _, _ => True

/-- Whether a store with a ledger may give an answer to a call and then have another ledger. -/
structure Allows (T : Terms) (x : Ledger) (c : Call) (a : Reply c.Answer) (y : Ledger) : Prop where
  allows : x.toSnapshot.Allows T c a y.toSnapshot
  ids : y.id? = idsAfter x.id? c a
  admits : Admits T x.toSnapshot c a

theorem eq_of_toSnapshot_eq {z : Ledger} (hv : y.toSnapshot = z.toSnapshot) (hids : y.id? = z.id?) : y = z := by
  cases y
  cases z
  simp_all only

/-- What a call makes of a ledger that does not concern records. -/
theorem Allows.eq {c : Call} {a : Reply c.Answer} {v : Snapshot} (h : x.Allows T c a y) (hv : y.toSnapshot = v)
    (hids : idsAfter x.id? c a = x.id?) : y = { x with toSnapshot := v } :=
  eq_of_toSnapshot_eq hv (h.ids.trans hids)

theorem allows_insertObject {r : ObjectRecord} {a : Reply (Option Status)}
    (h : x.Allows T (.insertObject r) a y) :
    ((x.object? r.key).all (·.status.isReplaceable) = true ∧ x.bucket? r.bucket = some .ready ∧
        T.Fits r.size ∧ a = .ok none ∧ y = x.record r) ∨
      (∃ t, (x.object? r.key).map (·.status) = some t ∧ t.isReplaceable = false ∧ a = .ok (some t) ∧ y = x) ∨
      ∃ e, ¬ (x.bucket? r.bucket = some .ready ∧ T.Fits r.size) ∧ a = .failed e ∧ y = x := by
  obtain ⟨hallows, hids, hadmits⟩ := h
  rcases hallows with ⟨hfree, hready, hfits, rfl, hy⟩ | ⟨t, ht, hkept, rfl, hy⟩ | ⟨e, rfl, hy⟩
  · exact .inl ⟨hfree, hready, hfits, rfl, eq_of_toSnapshot_eq hy hids⟩
  · exact .inr (.inl ⟨t, ht, hkept, rfl, eq_of_toSnapshot_eq hy hids⟩)
  · exact .inr (.inr ⟨e, hadmits, rfl, eq_of_toSnapshot_eq hy hids⟩)

theorem allows_updateObject {r : ObjectRecord} {a : Reply Unit} (h : x.Allows T (.updateObject r) a y) :
    (T.Fits r.size ∧ (x.object? r.key).isSome = true ∧ a = .ok () ∧ y = x.record r) ∨
      ∃ e, ¬ (T.Fits r.size ∧ (x.object? r.key).isSome = true) ∧ a = .failed e ∧ y = x := by
  obtain ⟨hallows, hids, -⟩ := h
  rcases hallows with ⟨hfits, hthere, rfl, hy⟩ | ⟨hfails, e, rfl, hy⟩
  · exact .inl ⟨hfits, hthere, rfl, eq_of_toSnapshot_eq hy hids⟩
  · exact .inr ⟨e, hfails, rfl, eq_of_toSnapshot_eq hy hids⟩

end Ledger

/-- A way of performing calls that keeps to the contract of ledgers. -/
structure Registry {σ : Type} (T : Terms) (perform : (c : Call) → σ → Reply c.Answer × σ) where
  ledger : σ → Ledger
  Sound : σ → Prop
  sound : ∀ c s, Sound s → Sound (perform c s).2
  allows : ∀ c s, Sound s → (ledger s).Allows T c (perform c s).1 (ledger (perform c s).2)

/-! ## Catalogs -/

namespace MemoryCatalog

variable (c : MemoryCatalog) (r : ObjectRecord) (k : Key)

/-- The id of a record. -/
def id? (k : Key) : Option String := (c.getObject k).map (·.id)

theorem id?_insert {objects : SortedMap Key ObjectRecord} (h : objects = SortedMap.insert c.objects r.key r) :
    ({ c with objects := objects } : MemoryCatalog).id? =
      fun k => if k = r.key then some r.id else c.id? k := by
  subst h
  funext k
  simp only [id?, getObject, SortedMap.get?_insert]
  split <;> rfl

theorem id?_createBucket (r : BucketRecord) : (c.createBucket r).2.id? = c.id? := by
  rw [createBucket]
  split
  · split <;> rfl
  · rfl

theorem id?_setBucketStatus (name : String) (s : Status) : (c.setBucketStatus name s).2.id? = c.id? := by
  rw [setBucketStatus]
  split <;> rfl

theorem id?_insertObject :
    (c.insertObject r).2.id? = Ledger.idsAfter c.id? (.insertObject r) (.ofExcept (c.insertObject r).1) := by
  rw [insertObject]
  split
  · split
    · split
      · exact c.id?_insert r rfl
      · rfl
    · exact c.id?_insert r rfl
  · rfl

theorem id?_updateObject :
    (c.updateObject r).2.id? = Ledger.idsAfter c.id? (.updateObject r) (.ofExcept (c.updateObject r).1) := by
  rw [updateObject]
  split
  · exact c.id?_insert r rfl
  · rfl

theorem not_ready_of_insertObject {e : StoreError} (h : (c.insertObject r).1 = .error e) :
    (c.getBucket r.bucket).map (·.status) ≠ some .ready := by
  intro hready
  rw [getBucket] at hready
  rw [insertObject, if_pos hready] at h
  split at h
  · split at h <;> cases h
  · cases h

end MemoryCatalog

namespace Table

variable (t : Table) (r : ObjectRecord) (k : Key)

/-- The id of a record. -/
def id? (k : Key) : Option String := (t.getObject k).map (·.id)

theorem ObjectRow.id_toRecord_ofRecord : (ofRecord r).toRecord.id = r.id := by
  rw [toRecord, ofRecord]

theorem id?_setObject {t' : Table}
    (h : ∀ k, t'.getObject k = if k = r.key then some (ObjectRow.ofRecord r).toRecord else t.getObject k) :
    t'.id? = fun k => if k = r.key then some r.id else t.id? k := by
  funext k
  rw [id?, h]
  split
  · rw [Option.map_some, ObjectRow.id_toRecord_ofRecord]
  · rfl

theorem id?_createBucket (r : BucketRecord) : (t.createBucket r).2.id? = t.id? := by
  rw [createBucket]
  split
  · split <;> rfl
  · rfl

theorem id?_setBucketStatus (name : String) (s : Status) : (t.setBucketStatus name s).2.id? = t.id? := by
  rw [setBucketStatus]
  split <;> rfl

theorem id?_insertObject :
    (t.insertObject r).2.id? = Ledger.idsAfter t.id? (.insertObject r) (.ofExcept (t.insertObject r).1) := by
  have hadd : (if r.size < sizeBound then ((.ok none : Except StoreError (Option Status)),
      t.putObject (.ofRecord r)) else (.error .sizeOutOfRange, t)).2.id? =
        Ledger.idsAfter t.id? (.insertObject r) (.ofExcept (if r.size < sizeBound then
          ((.ok none : Except StoreError (Option Status)), t.putObject (.ofRecord r))
          else (.error .sizeOutOfRange, t)).1) := by
    split
    · exact t.id?_setObject r (t.getObject_putObject r)
    · rfl
  rw [insertObject]
  split
  · split
    · split
      · exact hadd
      · rfl
    · exact hadd
  · rfl

theorem id?_updateObject :
    (t.updateObject r).2.id? = Ledger.idsAfter t.id? (.updateObject r) (.ofExcept (t.updateObject r).1) := by
  rw [updateObject]
  split
  · split
    · rename_i row hrow
      exact t.id?_setObject r (t.getObject_changeObject hrow)
    · rfl
  · rfl

theorem not_ready_of_insertObject {e : StoreError} (h : (t.insertObject r).1 = .error e) :
    ¬ ((t.bucketRow? r.bucket).map (fun row => Status.parse row.status) = some .ready ∧ r.size < sizeBound) := by
  rintro ⟨hready, hfits⟩
  obtain ⟨row, hrow, hstatus⟩ := Option.map_eq_some_iff.mp hready
  have hbucket : (t.bucketRow? r.bucket).bind (fun row => Status.parse? row.status) = some .ready := by
    rw [hrow, Option.bind_some]
    rw [Status.parse] at hstatus
    cases hparse : Status.parse? row.status with
    | none =>
      rw [hparse] at hstatus
      cases hstatus
    | some s =>
      rw [hparse] at hstatus
      exact congrArg some hstatus
  rw [insertObject, if_pos hbucket, if_pos hfits] at h
  split at h
  · split at h <;> cases h
  · cases h

end Table

/-! ## Stores -/

namespace Store

variable {T : Terms}

/-- The id of a record. -/
def id? (s : Store) (k : Key) : Option String :=
  match s.catalog with
  | .memory c => c.id? k
  | .table t => t.id? k

/-- The ledger of a store. -/
def ledger (s : Store) : Ledger := ⟨s.view, s.id?⟩

theorem id?_perform (c : Call) (s : Store) :
    (s.perform c).2.id? = Ledger.idsAfter s.id? c (s.perform c).1 := by
  obtain ⟨catalog, storage⟩ := s
  cases c with
  | insertObject r =>
    cases catalog with
    | memory c => exact c.id?_insertObject r
    | table t => exact t.id?_insertObject r
  | updateObject r =>
    cases catalog with
    | memory c => exact c.id?_updateObject r
    | table t => exact t.id?_updateObject r
  | createBucket r =>
    cases catalog with
    | memory c => exact c.id?_createBucket r
    | table t => exact t.id?_createBucket r
  | setBucketStatus name s =>
    cases catalog with
    | memory c => exact c.id?_setBucketStatus name s
    | table t => exact t.id?_setBucketStatus name s
  | _ => rfl

theorem admits_perform (c : Call) {s : Store} (hs : s.catalog.Sound T) (bytes : String → Option Bytes) :
    Ledger.Admits T (s.catalog.view bytes) c (s.perform c).1 := by
  obtain ⟨catalog, storage⟩ := s
  cases c with
  | insertObject r =>
    have hreply : (perform (.insertObject r) ⟨catalog, storage⟩).1 = .ofExcept (catalog.insertObject r).1 := rfl
    rw [hreply]
    cases ha : (catalog.insertObject r).1 with
    | ok t => trivial
    | error e =>
      rintro ⟨hready, hfits⟩
      cases catalog with
      | memory c => exact c.not_ready_of_insertObject r ha hready
      | table t =>
        refine t.not_ready_of_insertObject r ha ⟨?_, (hs.2 _).mp hfits⟩
        rw [← hready]
        exact (t.bucket?_view _ _).symm
  | _ => trivial

/-- A store with its storage in memory keeps the contract of ledgers. -/
def registry (T : Terms) : Registry T perform where
  ledger := ledger
  Sound := Sound T
  sound c _ hs := sound_perform c hs
  allows c s hs := ⟨allows_perform c hs, id?_perform c s, admits_perform c hs.1 _⟩

end Store

end Depot
