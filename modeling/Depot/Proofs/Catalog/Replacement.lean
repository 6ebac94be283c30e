import Depot.Proofs.Catalog.Agreement

/-!
# Which entries are replaced

A new bucket or object takes the place of the entry of its name if that is deleted, and also if its state is
not known. Every other entry stays: the answer is its state, and the catalog is as if it had not been asked. So a
live entry changes only where an operation on existing entries names it.

## Main results

* `Catalog.outcome_createBucket`, `Catalog.outcome_insertObject` — what comes of a new bucket or object.
* `Catalog.addition_replaces` — both, and what follows for the answers to later operations.
* `Catalog.getObject_performAll_of_live` — live objects outlast every run that does not update them.
-/

namespace Depot

/-- Whether an entry of a name, if there is one, gives way to a new one. -/
def Status.GivesWay (entry : Option Status) : Prop := ∀ s ∈ entry, s = .deleted ∨ s = .unknown

namespace Status

variable {s : Status}

theorem isReplaceable_iff : s.isReplaceable = true ↔ s = .deleted ∨ s = .unknown := by
  cases s <;> simp [isReplaceable]

theorem givesWay_some : GivesWay (some s) ↔ s.isReplaceable = true := by
  simp [GivesWay, isReplaceable_iff]

/-- What does not give way is an entry, and neither deleted nor of unknown state. -/
theorem exists_of_not_givesWay {α : Type} {f : α → Status} {entry : Option α} (h : ¬ GivesWay (entry.map f)) :
    ∃ x, entry = some x ∧ f x ≠ .deleted ∧ f x ≠ .unknown := by
  cases entry with
  | none => exact absurd (by simp [GivesWay]) h
  | some x =>
    rw [Option.map_some, givesWay_some, isReplaceable_iff, not_or] at h
    exact ⟨x, rfl, h⟩

end Status

/-! ## In memory -/

namespace MemoryCatalog

variable {m : MemoryCatalog} {s : Status}

theorem createBucket_of_givesWay {r : BucketRecord}
    (h : Status.GivesWay ((m.getBucket r.name).map (·.status))) :
    m.createBucket r = (none, { m with buckets := SortedMap.insert m.buckets r.name r }) := by
  unfold createBucket
  split
  · next s hs =>
    have hreplaceable := Status.givesWay_some.mp (hs ▸ h)
    rw [if_pos hreplaceable]
  · rfl

theorem createBucket_of_stays {r : BucketRecord} (hs : (m.getBucket r.name).map (·.status) = some s)
    (h : ¬ Status.GivesWay (some s)) : m.createBucket r = (some s, m) := by
  rw [Status.givesWay_some] at h
  unfold getBucket at hs
  simp only [createBucket, hs, if_neg h]

theorem hasBucket_iff {name : String} : (Catalog.memory m).hasBucket name = true ↔
    (SortedMap.get? m.buckets name).map (·.status) = some .ready := by
  simp [Catalog.hasBucket, Catalog.getBucket, getBucket, Option.any_eq_true]

variable {r : ObjectRecord}

theorem insertObject_of_givesWay (hready : (Catalog.memory m).hasBucket r.bucket = true)
    (h : Status.GivesWay ((m.getObject r.key).map (·.status))) :
    m.insertObject r = (.ok none, { m with objects := SortedMap.insert m.objects r.key r }) := by
  unfold insertObject
  rw [if_pos (hasBucket_iff.mp hready)]
  split
  · next s hs =>
    have hreplaceable := Status.givesWay_some.mp (hs ▸ h)
    rw [if_pos hreplaceable]
  · rfl

theorem insertObject_of_stays (hready : (Catalog.memory m).hasBucket r.bucket = true)
    (hs : (m.getObject r.key).map (·.status) = some s) (h : ¬ Status.GivesWay (some s)) :
    m.insertObject r = (.ok (some s), m) := by
  rw [Status.givesWay_some] at h
  unfold getObject at hs
  simp only [insertObject, if_pos (hasBucket_iff.mp hready), hs, if_neg h]

theorem insertObject_of_not_ready (hready : (Catalog.memory m).hasBucket r.bucket = false) :
    m.insertObject r = (.error (.bucketMissing r.bucket), m) := by
  have hstate := mt hasBucket_iff.mpr (Bool.not_eq_true _ ▸ hready)
  unfold insertObject
  rw [if_neg hstate]

end MemoryCatalog

/-! ## In tables -/

namespace Table

variable {t : Table} {s : Status}

theorem status_getBucket (t : Table) (name : String) : (t.getBucket name).map (·.status) =
    (t.bucketRow? name).map fun row => Status.parse row.status := by
  simp [getBucket, Function.comp_def]

theorem status_getObject (t : Table) (k : Key) : (t.getObject k).map (·.status) =
    (t.objectRow? k.bucket k.name).map fun row => Status.parse row.status := by
  simp [getObject, Function.comp_def]

theorem createBucket_of_givesWay {r : BucketRecord}
    (h : Status.GivesWay ((t.getBucket r.name).map (·.status))) : (t.createBucket r).1 = none ∧
      ∀ name, (t.createBucket r).2.getBucket name = if name = r.name then some r.stored else t.getBucket name := by
  rw [status_getBucket] at h
  unfold createBucket
  cases hrow : t.bucketRow? r.name with
  | none => exact ⟨rfl, getBucket_addBucket hrow⟩
  | some row =>
    rw [hrow] at h
    have hreplaceable := Status.givesWay_some.mp h
    dsimp only
    rw [if_pos hreplaceable]
    refine ⟨rfl, fun name => ?_⟩
    have hchange := getBucket_changeBucket (f := fun _ => .ofRecord r) (fun _ _ => rfl) hrow name
    rwa [BucketRow.toRecord_ofRecord] at hchange

theorem createBucket_objects (r : BucketRecord) : (t.createBucket r).2.objects = t.objects := by
  unfold createBucket
  split
  · split <;> rfl
  · rfl

theorem createBucket_of_stays {r : BucketRecord} (hs : (t.getBucket r.name).map (·.status) = some s)
    (h : ¬ Status.GivesWay (some s)) : t.createBucket r = (some s, t) := by
  rw [status_getBucket, Option.map_eq_some_iff] at hs
  obtain ⟨row, hrow, rfl⟩ := hs
  rw [Status.givesWay_some] at h
  simp only [createBucket, hrow, if_neg h]

/-- A bucket is ready exactly if the column of its state names that state. -/
theorem hasBucket_iff {name : String} : (Catalog.table t).hasBucket name = true ↔
    (t.bucketRow? name).bind (fun row => Status.parse? row.status) = some .ready := by
  show (t.getBucket name).any (fun r => r.status == .ready) = true ↔ _
  unfold getBucket
  cases t.bucketRow? name with
  | none => simp
  | some row =>
    simp only [Option.map_some, Option.any_some, Option.bind_some, BucketRow.status_toRecord, Status.parse]
    cases Status.parse? row.status <;> simp

variable {r : ObjectRecord}

theorem insertObject_of_givesWay (hready : (Catalog.table t).hasBucket r.bucket = true)
    (h : Status.GivesWay ((t.getObject r.key).map (·.status))) : t.insertObject r =
      if r.size < sizeBound then (.ok none, t.putObject (.ofRecord r)) else (.error .sizeOutOfRange, t) := by
  rw [status_getObject] at h
  unfold insertObject
  rw [if_pos (hasBucket_iff.mp hready)]
  split
  · next row hrow =>
    have hreplaceable := Status.givesWay_some.mp (by rwa [ObjectRecord.key, hrow] at h)
    rw [if_pos hreplaceable]
  · rfl

theorem insertObject_of_stays (hready : (Catalog.table t).hasBucket r.bucket = true)
    (hs : (t.getObject r.key).map (·.status) = some s) (h : ¬ Status.GivesWay (some s)) :
    t.insertObject r = (.ok (some s), t) := by
  rw [status_getObject, Option.map_eq_some_iff] at hs
  obtain ⟨row, hrow, rfl⟩ := hs
  have hrow' : t.objectRow? r.bucket r.name = some row := hrow
  rw [Status.givesWay_some] at h
  simp only [insertObject, if_pos (hasBucket_iff.mp hready), hrow', if_neg h]

theorem insertObject_of_not_ready (hready : (Catalog.table t).hasBucket r.bucket = false) :
    t.insertObject r = (.error (.bucketMissing r.bucket), t) := by
  have hstate := mt hasBucket_iff.mpr (Bool.not_eq_true _ ▸ hready)
  unfold insertObject
  rw [if_neg hstate]

end Table

/-! ## In either catalog -/

namespace Catalog

variable {c c' : Catalog} {k : Key} {name : String} {op : Operation}

/-- A record of a bucket as the catalog gives it back. -/
def keptBucket : Catalog → BucketRecord → BucketRecord
  | memory _, r => r
  | table _, r => r.stored

/-- A record of an object as the catalog gives it back. -/
def keptObject : Catalog → ObjectRecord → ObjectRecord
  | memory _, r => r
  | table _, r => (Table.ObjectRow.ofRecord r).toRecord

/-- Whether the catalog has room for a size. -/
def Fits : Catalog → Nat → Prop
  | memory _, _ => True
  | table _, n => n < Table.sizeBound

/-- What comes of a new bucket, and of the catalog. -/
inductive BucketOutcome (c : Catalog) (r : BucketRecord) : Option Status × Catalog → Prop
  | refused {x : BucketRecord} (hx : c.getBucket r.name = some x)
    (hdeleted : x.status ≠ .deleted) (hunknown : x.status ≠ .unknown) : BucketOutcome c r (some x.status, c)
  | placed {c' : Catalog} (hfree : Status.GivesWay ((c.getBucket r.name).map (·.status)))
    (hbucket : ∀ name, c'.getBucket name = if name = r.name then some (c.keptBucket r) else c.getBucket name)
    (hobject : ∀ k, c'.getObject k = c.getObject k) : BucketOutcome c r (none, c')

/-- What comes of a new object, and of the catalog. -/
inductive ObjectOutcome (c : Catalog) (r : ObjectRecord) : Except StoreError (Option Status) × Catalog → Prop
  | homeless (hready : c.hasBucket r.bucket = false) : ObjectOutcome c r (.error (.bucketMissing r.bucket), c)
  | refused (hready : c.hasBucket r.bucket = true) {x : ObjectRecord} (hx : c.getObject r.key = some x)
    (hdeleted : x.status ≠ .deleted) (hunknown : x.status ≠ .unknown) : ObjectOutcome c r (.ok (some x.status), c)
  | oversized (hready : c.hasBucket r.bucket = true)
    (hfree : Status.GivesWay ((c.getObject r.key).map (·.status))) (hsize : ¬ c.Fits r.size) :
    ObjectOutcome c r (.error .sizeOutOfRange, c)
  | placed (hready : c.hasBucket r.bucket = true)
    (hfree : Status.GivesWay ((c.getObject r.key).map (·.status))) (hsize : c.Fits r.size) {c' : Catalog}
    (hobject : ∀ k, c'.getObject k = if k = r.key then some (c.keptObject r) else c.getObject k)
    (hbucket : ∀ name, c'.getBucket name = c.getBucket name) : ObjectOutcome c r (.ok none, c')

/-- A new bucket is refused by the one of its name, or takes its place. -/
theorem outcome_createBucket (c : Catalog) (r : BucketRecord) : BucketOutcome c r (c.createBucket r) := by
  by_cases hfree : Status.GivesWay ((c.getBucket r.name).map (·.status))
  · cases c with
    | memory m =>
      simp only [Catalog.createBucket, MemoryCatalog.createBucket_of_givesWay hfree]
      exact .placed hfree (fun name => SortedMap.get?_insert m.buckets r.name name r) fun _ => rfl
    | table t =>
      obtain ⟨hanswer, hbucket⟩ := Table.createBucket_of_givesWay hfree
      simp only [Catalog.createBucket, hanswer]
      refine .placed hfree hbucket fun k => ?_
      simp only [getObject, Table.getObject, Table.objectRow?, Table.createBucket_objects]
  · obtain ⟨x, hx, hdeleted, hunknown⟩ := Status.exists_of_not_givesWay hfree
    have hs : (c.getBucket r.name).map (·.status) = some x.status := by rw [hx, Option.map_some]
    rw [hs] at hfree
    have hanswer : c.createBucket r = (some x.status, c) := by
      cases c with
      | memory m => rw [Catalog.createBucket, MemoryCatalog.createBucket_of_stays hs hfree]
      | table t => rw [Catalog.createBucket, Table.createBucket_of_stays hs hfree]
    rw [hanswer]
    exact .refused hx hdeleted hunknown

/-- A new object has no ready bucket, is refused by the object of its name, is too large, or takes its
place. -/
theorem outcome_insertObject (c : Catalog) (r : ObjectRecord) : ObjectOutcome c r (c.insertObject r) := by
  cases hready : c.hasBucket r.bucket with
  | false =>
    have hanswer : c.insertObject r = (.error (.bucketMissing r.bucket), c) := by
      cases c with
      | memory m => rw [Catalog.insertObject, MemoryCatalog.insertObject_of_not_ready hready]
      | table t => rw [Catalog.insertObject, Table.insertObject_of_not_ready hready]
    rw [hanswer]
    exact .homeless hready
  | true =>
    by_cases hfree : Status.GivesWay ((c.getObject r.key).map (·.status))
    · cases c with
      | memory m =>
        simp only [Catalog.insertObject, MemoryCatalog.insertObject_of_givesWay hready hfree]
        exact .placed hready hfree trivial (fun k => SortedMap.get?_insert m.objects r.key k r) fun _ => rfl
      | table t =>
        simp only [Catalog.insertObject, Table.insertObject_of_givesWay hready hfree]
        split
        · next hfits => exact .placed hready hfree hfits (t.getObject_putObject r) fun _ => rfl
        · next hsize => exact .oversized hready hfree hsize
    · obtain ⟨x, hx, hdeleted, hunknown⟩ := Status.exists_of_not_givesWay hfree
      have hs : (c.getObject r.key).map (·.status) = some x.status := by rw [hx, Option.map_some]
      rw [hs] at hfree
      have hanswer : c.insertObject r = (.ok (some x.status), c) := by
        cases c with
        | memory m => rw [Catalog.insertObject, MemoryCatalog.insertObject_of_stays hready hs hfree]
        | table t => rw [Catalog.insertObject, Table.insertObject_of_stays hready hs hfree]
      rw [hanswer]
      exact .refused hready hx hdeleted hunknown

/-! ## Refused operations -/

/-- Whether the catalog refuses an operation: a new bucket or object whose name an entry holds that does not give
way, or a new object without a ready bucket. -/
def Refuses (c : Catalog) : Operation → Prop
  | .createBucket r => ¬ Status.GivesWay ((c.getBucket r.name).map (·.status))
  | .insertObject r => c.hasBucket r.bucket = false ∨ ¬ Status.GivesWay ((c.getObject r.key).map (·.status))
  | _ => False

theorem createBucket_of_refuses {r : BucketRecord} (h : c.Refuses (.createBucket r)) :
    (c.createBucket r).2 = c := by
  have houtcome := outcome_createBucket c r
  generalize c.createBucket r = result at houtcome
  cases houtcome with
  | refused => rfl
  | placed hfree => exact absurd hfree h

theorem insertObject_of_refuses {r : ObjectRecord} (h : c.Refuses (.insertObject r)) :
    (c.insertObject r).2 = c := by
  have houtcome := outcome_insertObject c r
  generalize c.insertObject r = result at houtcome
  cases houtcome with
  | homeless => rfl
  | refused => rfl
  | oversized => rfl
  | placed hready hfree =>
    rcases h with hmissing | hstays
    · rw [hready] at hmissing
      cases hmissing
    · exact absurd hfree hstays

/-- An operation that is refused changes nothing. -/
theorem perform_of_refuses (h : c.Refuses op) : (c.perform op).2 = c := by
  cases op with
  | createBucket r => exact createBucket_of_refuses h
  | insertObject r => exact insertObject_of_refuses h
  | getBucket _ | hasBucket _ | listBuckets | setBucketStatus _ _ | getObject _ | updateObject _ | listObjects _ _ =>
    exact h.elim

/-- What comes of a new bucket and of a new object, in every state of a catalog: it takes the place of the entry
of its name only if that is deleted or its state is not known, and is refused with the state of any other one.
What is refused leaves all later answers as if it had not been asked for. -/
theorem addition_replaces (c : Catalog) :
    (∀ r, c.BucketOutcome r (c.createBucket r)) ∧ (∀ r, c.ObjectOutcome r (c.insertObject r)) ∧
      ∀ op, c.Refuses op → ∀ ops,
        c.performAll (op :: ops) = ((c.perform op).1 :: (c.performAll ops).1, (c.performAll ops).2) := by
  refine ⟨outcome_createBucket c, outcome_insertObject c, fun op hop ops => ?_⟩
  rw [performAll_cons, perform_of_refuses hop]

/-- A ready object is in the way of a new one; a listing in between and afterwards answers the same. -/
theorem addition_replaces_ready_object :
    let c := ((table {}).performAll [.createBucket { name := "maps" },
      .insertObject { bucket := "maps", name := "a", status := .ready, id := "first" }]).2
    let op : Operation := .insertObject { bucket := "maps", name := "a", id := "second" }
    let ops : List Operation := [.listObjects "maps" {}, .getObject ⟨"maps", "a"⟩]
    c.Refuses op ∧ (c.performAll (op :: ops)).2 = (c.performAll ops).2 ∧
      (c.performAll (op :: ops)).1 = (c.perform op).1 :: (c.performAll ops).1 := by
  intro c op ops
  have hop : c.Refuses op := by
    refine .inr fun hfree => ?_
    have hstatus : (c.getObject ⟨"maps", "a"⟩).map (·.status) = some .ready := by decide +kernel
    rcases hfree .ready hstatus with h | h <;> cases h
  have hsame := (addition_replaces c).2.2 op hop ops
  exact ⟨hop, by rw [hsame], by rw [hsame]⟩

/-- In neither catalog is a replaced object always a deleted one: one whose state is not known is replaced too. -/
theorem not_deleted_of_insertObject :
    ¬ ∃ engine ∈ ["memory", "sqlite"], ∀ (c : Catalog) (before : List Operation) (r x : ObjectRecord),
      open' engine = .ok c → (c.performAll before).2.getObject r.key = some x →
      ((c.performAll before).2.insertObject r).1 = .ok none → x.status = .deleted := by
  rintro ⟨engine, hengine, h⟩
  let old : ObjectRecord := { bucket := "maps", name := "a", status := .unknown, id := "first" }
  let before : List Operation := [.createBucket { name := "maps" }, .insertObject old]
  have hreplaced : ∃ c, open' engine = .ok c ∧ (c.performAll before).2.getObject old.key = some old ∧
      ((c.performAll before).2.insertObject { old with id := "second" }).1 = .ok none := by
    simp only [List.mem_cons, List.not_mem_nil, or_false] at hengine
    rcases hengine with rfl | rfl
    · exact ⟨memory {}, rfl, by decide +kernel, by decide +kernel⟩
    · exact ⟨table {}, rfl, by decide +kernel, by decide +kernel⟩
  obtain ⟨c, hopen, hold, hdone⟩ := hreplaced
  cases h c before { old with id := "second" } old hopen hold hdone

/-! ## Live entries -/

/-- Whether an operation is on an existing object of a key. -/
def Operation.Updates (k : Key) : Operation → Prop
  | .updateObject r => r.key = k
  | _ => False

theorem getObject_setBucketStatus (c : Catalog) (name : String) (s : Status) (k : Key) :
    (c.setBucketStatus name s).2.getObject k = c.getObject k := by
  cases c with
  | memory m =>
    show (m.setBucketStatus name s).2.getObject k = m.getObject k
    unfold MemoryCatalog.setBucketStatus
    split <;> rfl
  | table t =>
    show (t.setBucketStatus name s).2.getObject k = t.getObject k
    unfold Table.setBucketStatus
    split <;> rfl

theorem getObject_updateObject_of_ne (c : Catalog) {r : ObjectRecord} (h : k ≠ r.key) :
    (c.updateObject r).2.getObject k = c.getObject k := by
  cases c with
  | memory m =>
    show (m.updateObject r).2.getObject k = m.getObject k
    unfold MemoryCatalog.updateObject
    split
    · exact (SortedMap.get?_insert m.objects r.key k r).trans (if_neg h)
    · rfl
  | table t =>
    show (t.updateObject r).2.getObject k = t.getObject k
    unfold Table.updateObject
    split
    · split
      · next hrow => exact (t.getObject_changeObject hrow k).trans (if_neg h)
      · rfl
    · rfl

/-- An operation leaves a live object as it is unless it is an update of it. -/
theorem getObject_perform_of_live {x : ObjectRecord} (hx : c.getObject k = some x)
    (hlive : ¬ Status.GivesWay (some x.status)) (hop : ¬ op.Updates k) :
    (c.perform op).2.getObject k = some x := by
  cases op with
  | createBucket r =>
    show (c.createBucket r).2.getObject k = some x
    have houtcome := outcome_createBucket c r
    generalize c.createBucket r = result at houtcome
    cases houtcome with
    | refused => exact hx
    | placed _ _ hobject => exact (hobject k).trans hx
  | setBucketStatus name s => exact (getObject_setBucketStatus c name s k).trans hx
  | insertObject r =>
    show (c.insertObject r).2.getObject k = some x
    have houtcome := outcome_insertObject c r
    generalize c.insertObject r = result at houtcome
    cases houtcome with
    | homeless => exact hx
    | refused => exact hx
    | oversized => exact hx
    | placed _ hfree _ hobject =>
      have hother : k ≠ r.key := by
        rintro rfl
        rw [hx] at hfree
        exact hlive hfree
      rw [hobject, if_neg hother, hx]
  | updateObject r => exact (getObject_updateObject_of_ne c (Ne.symm hop)).trans hx
  | getBucket _ | hasBucket _ | listBuckets | getObject _ | listObjects _ _ => exact hx

/-- A live object outlasts every run of operations that does not update it. -/
theorem getObject_performAll_of_live {x : ObjectRecord} (hx : c.getObject k = some x)
    (hlive : ¬ Status.GivesWay (some x.status)) {ops : List Operation} (hops : ∀ op ∈ ops, ¬ op.Updates k) :
    (c.performAll ops).2.getObject k = some x := by
  induction ops generalizing c with
  | nil => exact hx
  | cons op ops ih =>
    obtain ⟨hop, hrest⟩ := List.forall_mem_cons.mp hops
    exact ih (getObject_perform_of_live hx hlive hop) hrest

end Catalog

end Depot
