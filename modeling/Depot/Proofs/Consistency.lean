import Depot.Proofs.History
import Depot.Proofs.Store.Engines

/-!
# Catalog and storage agree

Every request leaves the catalog and the storage in agreement, however it ends and wherever the storage
fails. The invariant has two parts: what is known of ready objects, which also holds of a catalog that
cannot take every size, and that nothing is left half-way, if what is uploaded fits.

## Main results

* `Turn.Effect.ready` — where the ready objects of a store come from.
* `Orderly.step` — every request leaves a store in order.
-/

namespace Depot

open ObjectResource (Free uploading failed)
open Upload (created recordedHash)

variable {T : Terms} {v w : Snapshot} {t : Turn} {r : Result} {k l : Key} {e : Entry}

/-! ## Names -/

/-- Whether the names in a store are names that requests may use. -/
structure Named (v : Snapshot) : Prop where
  buckets : ∀ b, (v.bucket? b).isSome = true → isBucketName b = true
  keys : ∀ k, (v.object? k).isSome = true → k.Valid

namespace Named

theorem empty : Named .empty := ⟨fun _ h => (by cases h), fun _ h => (by cases h)⟩

theorem setBucket (hv : Named v) {name : String} (hname : isBucketName name = true) (t : Status) :
    Named (v.setBucket name t) where
  buckets b hb := by
    by_cases h : b = name
    · exact h ▸ hname
    · exact hv.buckets b (by simpa [h] using hb)
  keys := hv.keys

theorem setObject (hv : Named v) (hk : k.Valid) (e : Entry) : Named (v.setObject k e) where
  buckets := hv.buckets
  keys l hl := by
    by_cases h : l = k
    · exact h ▸ hk
    · exact hv.keys l (by simpa [h] using hl)

theorem setBytes (hv : Named v) (path : String) (b : Option Bytes) : Named (v.setBytes path b) :=
  ⟨hv.buckets, hv.keys⟩

theorem loses (hv : Named v) {within : String → Prop} (h : v.Loses w within) : Named w :=
  ⟨h.bucket? ▸ hv.buckets, h.object? ▸ hv.keys⟩

theorem emptied (hv : Named v) {name : String} (hname : isBucketName name = true)
    (h : BucketResource.Emptied name v w) : Named w where
  buckets := h.bucket? ▸ (hv.setBucket hname .deleted).buckets
  keys k hk := by
    rcases h.object? k with hsame | ⟨-, hthere⟩
    · exact hv.keys k (hsame ▸ hk)
    · exact hv.keys k hthere

/-- Every request keeps to names that it may use. -/
theorem step (hv : Named v) (h : t.Effect T v w r) : Named w := by
  cases h with
  | createBucket h =>
    rcases h with rfl | ⟨hname, -, rfl⟩
    · exact hv
    · exact hv.setBucket hname .ready
  | @deleteBucket name _ h =>
    rcases h with rfl | ⟨hthere, -, ⟨-, hloses⟩ | hemptied⟩
    · exact hv
    · exact (hv.setBucket (hv.buckets name hthere) _).loses hloses
    · exact hv.emptied (hv.buckets name hthere) hemptied
  | @deleteObject k a h =>
    cases a with
    | ok x =>
      obtain ⟨e, he, -, rfl⟩ := h
      exact (hv.setObject (hv.keys k (by simp [he])) _).setBytes _ _
    | error x =>
      rcases h with rfl | ⟨-, e, he, -, hloses⟩
      · exact hv
      · exact (hv.setObject (hv.keys k (by simp [he])) _).loses hloses
  | @upload d _ _ h =>
    cases h with
    | refused => exact hv
    | failed => exact hv.setObject d.valid _
    | unfit => exact (hv.setObject d.valid _).setBytes _ _
    | stored => exact (hv.setObject d.valid _).setBytes _ _
  | pull h hw => exact hw ▸ hv

end Named

/-! ## Ready objects -/

/-- Whether an object is ready with the payload of an upload, as the record says that was the answer. -/
structure Holds (v : Snapshot) (k : Key) (d : Deposit) (r : ObjectRecord) (plain : Bytes) : Prop where
  object? : v.object? k = some ⟨.ready, r.hash, plain.length⟩
  bytes? : v.bytes? k.path = some plain
  hash : r.hash = recordedHash d.session d.stages.digest plain
  size : r.size = plain.length
  plain : d.stages.Plain d.body.bytes plain

/-- Whether a request left an object as it was. -/
structure Spared (v w : Snapshot) (x : Event) (k : Key) : Prop where
  object? : w.object? k = v.object? k
  bytes? : w.bytes? k.path = v.bytes? k.path
  bucket? : v.bucket? k.bucket = some .ready → w.bucket? k.bucket = some .ready
  untouched : ¬ x.Touches k

/-- Whether a request made an object ready. -/
def Stored (w : Snapshot) (x : Event) (k : Key) : Prop :=
  w.bucket? k.bucket = some .ready ∧
    ∃ d r plain, x.Deposits k d (created d.context.order d.session r) ∧ Holds w k d r plain

namespace Event

variable {d : Deposit} {x : Ending} {b : Barrier}

theorem touches_upload : (⟨.upload d, .upload x b⟩ : Event).Touches k ↔ d.key = k ∧ x.Created := by
  constructor
  · rintro (⟨_, a, rfl, hk, ha⟩ | h)
    · exact ⟨hk, a, ha⟩
    · exact h.elim
  · rintro ⟨hk, a, ha⟩
    exact .inl ⟨d, a, rfl, hk, ha⟩

theorem untouched_of_bucket {a : Except Trouble BucketRecord} : ¬ (⟨t, .bucket a⟩ : Event).Touches k := by
  rintro (⟨_, _, h⟩ | h) <;> cases t <;> exact h.elim

theorem untouched_of_pull : ¬ (⟨t, .pull x⟩ : Event).Touches k := by
  rintro (⟨_, _, h⟩ | h) <;> cases t <;> exact h.elim

theorem untouched_of_error {m : Trouble} :
    ¬ (⟨.deleteObject l, .object (.error m)⟩ : Event).Touches k := by
  rintro (⟨_, _, h⟩ | h) <;> exact h.elim

theorem touches_deleteObject {a : Except Trouble ObjectRecord} :
    (⟨.deleteObject l, .object a⟩ : Event).Touches k → l = k := by
  rintro (⟨_, _, h⟩ | h)
  · exact h.elim
  · cases a with
    | ok _ => exact h
    | error _ => exact h.elim

end Event

namespace Spared

theorem refl {x : Event} (hx : ¬ x.Touches k) : Spared v v x k := ⟨rfl, rfl, id, hx⟩

/-- An object is spared when a bucket is created. -/
theorem of_created {name site : String} {now : Instant} {a : Except Trouble BucketRecord}
    (h : BucketResource.Created name v w) : Spared v w ⟨.createBucket name site now, .bucket a⟩ k := by
  rcases h with rfl | ⟨-, -, rfl⟩
  · exact .refl Event.untouched_of_bucket
  · refine ⟨rfl, rfl, fun hready => ?_, Event.untouched_of_bucket⟩
    by_cases hk : k.bucket = name <;> simp [hk, hready]

/-- An object is spared when another bucket is deleted. -/
theorem of_removed {name : String} {a : Except Trouble BucketRecord} (hv : Named v)
    (h : BucketResource.Removed T name v w) (hk : k.Valid) (hother : k.bucket ≠ name) :
    Spared v w ⟨.deleteBucket name, .bucket a⟩ k := by
  rcases h with rfl | ⟨hthere, -, h⟩
  · exact .refl Event.untouched_of_bucket
  · have houtside : isInside name k.path ≠ true := by
      rwa [Ne, Key.isInside_path (hv.buckets name hthere) hk]
    rcases h with ⟨-, hloses⟩ | hemptied
    · refine ⟨by rw [hloses.object?]; rfl, ?_, by simp [hloses.bucket?, hother], Event.untouched_of_bucket⟩
      rcases hloses.bytes? k.path with hsame | ⟨hinside, -⟩
      · exact hsame
      · exact absurd hinside houtside
    · refine ⟨?_, by simp [hemptied.bytes?, houtside], by simp [hemptied.bucket?, hother], Event.untouched_of_bucket⟩
      rcases hemptied.object? k with hsame | ⟨hk, -⟩
      · exact hsame
      · exact absurd hk hother

/-- An object is spared when another one is deleted. -/
theorem of_erased {a : Except Trouble ObjectRecord} (hv : Named v) (h : ObjectResource.Erased T l v a w)
    (hk : k.Valid) (hother : k ≠ l) : Spared v w ⟨.deleteObject l, .object a⟩ k := by
  have huntouched : ¬ (⟨.deleteObject l, .object a⟩ : Event).Touches k :=
    fun h => hother (Event.touches_deleteObject h).symm
  have hpath : (v.object? l).isSome = true → k.path ≠ l.path :=
    fun hl h => hother (Key.path_inj hk (hv.keys l hl) h)
  cases a with
  | ok x =>
    obtain ⟨e, he, -, rfl⟩ := h
    exact ⟨by simp [hother], by simp [hpath (by simp [he])], by simp, huntouched⟩
  | error x =>
    rcases h with rfl | ⟨-, e, he, -, hloses⟩
    · exact .refl huntouched
    · refine ⟨by simp [hloses.object?, hother], ?_, by simp [hloses.bucket?], huntouched⟩
      rcases hloses.bytes? k.path with hsame | ⟨hpath', -⟩
      · exact hsame
      · exact absurd hpath' (hpath (by simp [he]))

/-- An object is spared when another one is uploaded. -/
theorem of_deposited {d : Deposit} {x : Ending} {b : Barrier}
    (h : Upload.Deposited T d.context.order d.session d.stages d.body d.key v x w) (hk : k.Valid) (hother : k ≠ d.key) :
    Spared v w ⟨.upload d, .upload x b⟩ k := by
  have huntouched : ¬ (⟨.upload d, .upload x b⟩ : Event).Touches k :=
    fun h => hother (Event.touches_upload.mp h).1.symm
  have hpath : k.path ≠ d.key.path := fun h => hother (Key.path_inj hk d.valid h)
  cases h with
  | refused => exact .refl huntouched
  | failed => exact ⟨by simp [hother], by simp, by simp, huntouched⟩
  | unfit => exact ⟨by simp [hother], by simp [hpath], by simp, huntouched⟩
  | stored => exact ⟨by simp [hother], by simp [hpath], by simp, huntouched⟩

end Spared

/-- A ready object was so before, or was uploaded just now. -/
theorem Turn.Effect.ready (hv : Named v) (h : t.Effect T v w r) (hk : w.object? k = some e)
    (he : e.status = .ready) : Spared v w ⟨t, r⟩ k ∨ Stored w ⟨t, r⟩ k := by
  have hvalid : k.Valid := (hv.step h).keys k (by simp [hk])
  cases h with
  | createBucket h => exact .inl (.of_created h)
  | @deleteBucket name a h =>
    by_cases hother : k.bucket = name
    · rcases h with rfl | ⟨-, hidle, ⟨-, hloses⟩ | hemptied⟩
      · exact .inl (.refl Event.untouched_of_bucket)
      · have hlive := hidle k e hother (by simpa [hloses.object?] using hk)
        exact absurd (he ▸ List.mem_cons_self) hlive
      · cases he.symm.trans (hemptied.deleted k e hother hk)
    · exact .inl (.of_removed hv h hvalid hother)
  | @deleteObject l a h =>
    by_cases hother : k = l
    · subst hother
      cases a with
      | ok x =>
        obtain ⟨_, -, -, rfl⟩ := h
        simp only [Snapshot.object?_setBytes, Snapshot.object?_setObject, if_true] at hk
        cases hk
        cases he
      | error x =>
        rcases h with rfl | ⟨-, _, -, -, hloses⟩
        · exact .inl (.refl Event.untouched_of_error)
        · simp only [hloses.object?, Snapshot.object?_setObject, if_true] at hk
          cases hk
          cases he
    · exact .inl (.of_erased hv h hvalid hother)
  | @upload d x b h =>
    by_cases hother : k = d.key
    · subst hother
      cases h with
      | refused hx => exact .inl (.refl fun h => hx (Event.touches_upload.mp h).2)
      | failed =>
        simp only [Snapshot.object?_setObject, if_true] at hk
        cases hk
        cases he
      | unfit =>
        simp only [Snapshot.object?_setBytes, Snapshot.object?_setObject, if_true] at hk
        cases hk
        cases he
      | @stored r plain hfree hplain hhash hsize =>
        exact .inr ⟨hfree.2, d, r, plain, ⟨rfl, rfl, rfl, rfl⟩, by simp, by simp, hhash, hsize, hplain⟩
    · exact .inl (.of_deposited h hvalid hother)
  | pull h hw =>
    subst hw
    exact .inl (.refl Event.untouched_of_pull)

/-- What is known of the ready objects of a store after a history. -/
structure Faithful (h : List Event) (v : Snapshot) : Prop where
  named : Named v
  ready : ∀ k e, v.object? k = some e → e.status = .ready → v.bucket? k.bucket = some .ready ∧
    ∃ d r plain, Latest h k d (created d.context.order d.session r) ∧ Holds v k d r plain

theorem Faithful.empty : Faithful [] .empty := ⟨.empty, fun _ _ h => (by cases h)⟩

/-- Every request keeps what is known of ready objects. -/
theorem Faithful.step {h : List Event} (hv : Faithful h v) (heffect : t.Effect T v w r) :
    Faithful (h ++ [⟨t, r⟩]) w where
  named := hv.named.step heffect
  ready k e hk he := by
    rcases heffect.ready hv.named hk he with hspared | ⟨hbucket, d, x, plain, hx, hholds⟩
    · obtain ⟨hbucket, d, x, plain, hlatest, hholds⟩ := hv.ready k e (hspared.object? ▸ hk) he
      refine ⟨hspared.bucket? hbucket, d, x, plain, since_append.mpr (.inr ⟨hlatest, hspared.untouched⟩), ?_⟩
      exact ⟨hspared.object?.trans hholds.object?, hspared.bytes?.trans hholds.bytes?, hholds.hash,
        hholds.size, hholds.plain⟩
    · exact ⟨hbucket, d, x, plain, since_append.mpr (.inl hx), hholds⟩

/-! ## Nothing is left half-way -/

/-- Whether no request has left anything half-way. -/
structure Orderly (v : Snapshot) : Prop where
  buckets : ∀ b, v.bucket? b ≠ some .deleting
  objects : ∀ k e, v.object? k = some e → e.status ≠ .upload ∧ e.status ≠ .deleting
  gone : ∀ k, k.Valid → (∀ e, v.object? k = some e → e.status = .deleted) → v.bytes? k.path = none

namespace Orderly

theorem empty : Orderly .empty :=
  ⟨fun _ h => (by cases h), fun _ _ h => (by cases h), fun _ _ _ => rfl⟩

theorem setBucket (hv : Orderly v) (name : String) {s : Status} (hs : s ≠ .deleting) :
    Orderly (v.setBucket name s) where
  buckets b := by
    by_cases h : b = name
    · simpa [h] using hs
    · simpa [h] using hv.buckets b
  objects := hv.objects
  gone := hv.gone

theorem setObject (hv : Orderly v) {e : Entry} (he : e.status ≠ .upload ∧ e.status ≠ .deleting)
    (hbytes : e.status = .deleted → v.bytes? k.path = none) : Orderly (v.setObject k e) where
  buckets := hv.buckets
  objects l x hx := by
    by_cases h : l = k
    · obtain rfl : e = x := by simpa [h] using hx
      exact he
    · exact hv.objects l x (by simpa [h] using hx)
  gone l hl hdeleted := by
    by_cases h : l = k
    · exact h ▸ hbytes (hdeleted e (by simp [h]))
    · exact hv.gone l hl fun x hx => hdeleted x (by simpa [h] using hx)

theorem loses (hv : Orderly v) {within : String → Prop} (h : v.Loses w within) : Orderly w where
  buckets := h.bucket? ▸ hv.buckets
  objects := h.object? ▸ hv.objects
  gone k hk hdeleted := by
    rcases h.bytes? k.path with hsame | ⟨-, hnone⟩
    · exact hsame ▸ hv.gone k hk (h.object? ▸ hdeleted)
    · exact hnone

/-- Storing the bytes of an object that is not deleted. -/
theorem setBytes (hv : Orderly v) (hk : k.Valid) (hobject : v.object? k = some e) (he : e.status ≠ .deleted)
    (b : Bytes) : Orderly (v.setBytes k.path (some b)) where
  buckets := hv.buckets
  objects := hv.objects
  gone l hl hdeleted := by
    by_cases h : l = k
    · subst h
      exact absurd (hdeleted e hobject) he
    · have hpath : l.path ≠ k.path := fun hp => h (Key.path_inj hl hk hp)
      simpa [hpath] using hv.gone l hl hdeleted

theorem emptied (hv : Orderly v) {name : String} (hname : isBucketName name = true)
    (h : BucketResource.Emptied name v w) : Orderly w where
  buckets := h.bucket? ▸ (hv.setBucket name (by decide)).buckets
  objects k e hk := by
    by_cases hb : k.bucket = name
    · rw [h.deleted k e hb hk]
      decide
    · rcases h.object? k with hsame | ⟨hb', -⟩
      · exact hv.objects k e (hsame ▸ hk)
      · exact absurd hb' hb
  gone k hk hdeleted := by
    rw [h.bytes?, Snapshot.bytes?_clear]
    split
    · rfl
    · rename_i houtside
      rw [Key.isInside_path hname hk] at houtside
      rcases h.object? k with hsame | ⟨hb, -⟩
      · exact hv.gone k hk (hsame ▸ hdeleted)
      · exact absurd hb houtside

/-- No request leaves anything half-way if the catalog can take what is uploaded. -/
theorem step (hnamed : Named v) (hv : Orderly v) (h : t.Effect T v w r) (hfits : ∀ d, t = .upload d → d.Fits T) :
    Orderly w := by
  cases h with
  | createBucket h =>
    rcases h with rfl | ⟨-, -, rfl⟩
    · exact hv
    · exact hv.setBucket _ (by decide)
  | @deleteBucket name _ h =>
    rcases h with rfl | ⟨hthere, -, ⟨-, hloses⟩ | hemptied⟩
    · exact hv
    · exact (hv.setBucket name (by decide)).loses hloses
    · exact hv.emptied (hnamed.buckets name hthere) hemptied
  | @deleteObject k a h =>
    cases a with
    | ok x =>
      obtain ⟨e, -, -, rfl⟩ := h
      rw [← Snapshot.setObject_setBytes]
      exact (hv.loses (.setBytes v k.path)).setObject (by simp) (by simp)
    | error x =>
      rcases h with rfl | ⟨-, e, -, -, hloses⟩
      · exact hv
      · exact (hv.setObject (by simp) (by simp)).loses hloses
  | @upload d _ _ h =>
    cases h with
    | refused => exact hv
    | failed => exact hv.setObject (by decide) fun h => (by cases h)
    | unfit _ _ hsize hbytes => exact absurd ((hfits d rfl).2 _ hbytes) hsize
    | @stored x plain =>
      have hready : (v.setObject d.key ⟨.ready, x.hash, plain.length⟩).object? d.key =
          some ⟨.ready, x.hash, plain.length⟩ := by simp
      exact (hv.setObject (by simp) (by simp)).setBytes d.valid hready (by simp) plain
  | pull h hw => exact hw ▸ hv

end Orderly

/-! ## Every history -/

/-- Whether catalog and storage agree after a history. -/
structure Consistent (h : List Event) (v : Snapshot) : Prop where
  /-- No object is being uploaded or deleted. -/
  objects : ∀ k e, v.object? k = some e → e.status ≠ .upload ∧ e.status ≠ .deleting
  /-- No bucket is being deleted. -/
  buckets : ∀ b, v.bucket? b ≠ some .deleting
  /-- A ready object lies in a ready bucket, and its record describes its bytes: their size and, where it
  was to be computed, their hash. -/
  ready : ∀ k e, v.object? k = some e → e.status = .ready → v.bucket? k.bucket = some .ready ∧
    ∃ bytes, v.bytes? k.path = some bytes ∧ e.size = bytes.length ∧
      ∃ d a, Latest h k d a ∧ (d.session.declaredHash = none → d.context.digest = true →
        e.hash = some (Base32.encode (Sha256.digest bytes)))
  /-- What is absent or deleted has no bytes. -/
  gone : ∀ k, k.Valid → (∀ e, v.object? k = some e → e.status = .deleted) → v.bytes? k.path = none

theorem consistent_of_orderly {h : List Event} (hfaithful : Faithful h v) (horderly : Orderly v) :
    Consistent h v where
  objects := horderly.objects
  buckets := horderly.buckets
  ready k e hk he := by
    obtain ⟨hbucket, d, r, plain, hlatest, hholds⟩ := hfaithful.ready k e hk he
    rw [hholds.object?] at hk
    cases hk
    refine ⟨hbucket, plain, hholds.bytes?, rfl, d, _, hlatest, fun hdeclared hdigest => ?_⟩
    have hstages : d.stages.digest = true := by simp [Deposit.stages, Upload.stagesOf, hdeclared, hdigest]
    rw [hholds.hash, recordedHash, if_pos hstages]
  gone := horderly.gone

/-- Catalog and storage agree after every history that begins with nothing, on a catalog that takes what is
uploaded and does not fail, and a storage that may fail to make containers, to write and to erase. -/
theorem play_consistent {σ : Type} {perform : (c : Call) → σ → Reply c.Answer × σ} (C : Contract T perform)
    {s : σ} (hs : C.Sound s) (hempty : C.view s = .empty) (turns : List Turn)
    (hfits : ∀ d, .upload d ∈ turns → d.Fits T)
    (hprompt : ∀ x ∈ (play perform turns s).1, x.result.Prompt) :
    Consistent (play perform turns s).1 (C.view (play perform turns s).2) := by
  have hinit : Faithful [] (C.view s) ∧ Orderly (C.view s) := hempty ▸ ⟨.empty, .empty⟩
  obtain ⟨-, hfaithful, horderly⟩ := play_induction C (fun h v => Faithful h v ∧ Orderly v)
    (fun hturn hv heffect =>
      ⟨hv.1.step heffect, hv.2.step hv.1.named heffect fun d hd => hfits d (hd ▸ hturn)⟩) [] hs hinit hprompt
  exact consistent_of_orderly hfaithful horderly

/-- A storage that erases nothing. -/
def Sample.stubborn : Faults := { broken := [(.eraseBytes, .failure "out of order")] }

theorem Sample.stubborn_ofStorage : stubborn.OfStorage := by
  refine ⟨rfl, fun p hp => ?_⟩
  obtain rfl := List.mem_singleton.mp hp
  exact .inr (.inr ⟨.inl rfl, _, rfl⟩)

/-- An object of a catalog in tables that could not be deleted, and is uploaded again in vain. -/
theorem play_consistent_stubborn :
    let turns := Sample.turns ++ [.deleteObject Sample.key, .upload Sample.deposit]
    let past := play Sample.stubborn.perform turns { catalog := .table {} }
    (past.2.view.object? Sample.key).map (·.status) = some .deletionFailed ∧
      Consistent past.1 past.2.view := by
  intro turns past
  let T : Terms := { Fits := (· < Table.sizeBound) }
  have hfits : ∀ d, .upload d ∈ turns → d.Fits T := by
    intro d hd
    obtain rfl : d = Sample.deposit := by simpa [turns, Sample.turns] using hd
    refine ⟨by decide, fun plain hplain => ?_⟩
    obtain rfl : plain = Sample.deposit.body.bytes := hplain
    exact Nat.lt_of_lt_of_le (by decide : _ < 4) (by decide)
  have hsound : Store.Sound T { catalog := .table {} } := Store.sound_table (fun _ => Iff.rfl) 0
  exact ⟨by decide, play_consistent (Faults.contract Sample.stubborn_ofStorage trivial) hsound
    (Store.view_empty (.inr rfl) 0) turns hfits (by decide)⟩

end Depot
