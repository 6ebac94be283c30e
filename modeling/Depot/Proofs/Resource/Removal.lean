import Depot.Proofs.Store.Program
import Depot.Resource.Bucket

/-!
# Creating and removing

What creating a bucket and deleting an object or a bucket make of a store, whether they are refused,
fail on their way, or come to their end.

## Main results

* `ObjectResource.ensures_delete` — deleting an object.
* `BucketResource.ensures_create`, `BucketResource.ensures_delete` — creating and deleting a bucket.
-/

namespace Depot

open Depot.Action

variable {ρ : Type} {T : Terms} {s : ρ} {v : Snapshot}

/-- The entry in another state. -/
def Entry.turn (e : Entry) (t : Status) : Entry := { e with status := t }

section Turn

variable (e : Entry) (r : ObjectRecord) (t u : Status)

@[simp] theorem Entry.status_turn : (e.turn t).status = t := rfl

@[simp] theorem ObjectRecord.key_turn : (r.turn t).key = r.key := rfl

@[simp] theorem ObjectRecord.size_turn : (r.turn t).size = r.size := rfl

@[simp] theorem ObjectRecord.entry_turn : (r.turn t).entry = r.entry.turn t := rfl

end Turn

namespace ObjectResource

theorem ensures_info (k : Key) {Q : Except Trouble ObjectRecord → Unit → Snapshot → Prop}
    (hnone : v.object? k = none → ∀ e, Q (.error e) () v)
    (hsome : ∀ r, v.object? k = some r.entry → r.key = k → Q (.ok r) () v) :
    (info k).Ensures T Q () v := by
  simp only [info, ensures_bind, ensures_call]
  rintro _ w ⟨r, rfl, hr, hk, rfl⟩
  cases r with
  | none => simpa using hnone hr.symm _
  | some r => simpa using hsome r hr.symm (hk r rfl)

/-- The states in which an object can be deleted. -/
def erasable (t : Status) : Prop := t = .ready ∨ t = .uploadFailed ∨ t = .deletionFailed

/-- What has become of a store when an object was to be deleted. -/
def Erased (T : Terms) (k : Key) (v : Snapshot) : Except Trouble ObjectRecord → Snapshot → Prop
  | .ok _, w => ∃ e, v.object? k = some e ∧ erasable e.status ∧
      w = (v.setObject k (e.turn .deleted)).setBytes k.path none
  | .error _, w => w = v ∨ T.MayKeep ∧ ∃ e, v.object? k = some e ∧ erasable e.status ∧
      (v.setObject k (e.turn .deletionFailed)).Loses w (· = k.path)

/-- Erasing an object whose size fits. -/
theorem ensures_erase_of_fits {k : Key} {r : ObjectRecord} (hk : r.key = k) (hr : v.object? k = some r.entry)
    (hfits : T.Fits r.size) {Q : Except Trouble ObjectRecord → Unit → Snapshot → Prop}
    (hdone : Q (.ok (r.turn .deleted)) () ((v.setObject k (r.entry.turn .deleted)).setBytes k.path none))
    (hkept : T.MayKeep → ∀ e w, (v.setObject k (r.entry.turn .deletionFailed)).Loses w (· = k.path) →
      Q (.error e) () w) : (erase k r).Ensures T Q () v := by
  subst hk
  simp only [erase, ensures_bind, ensures_updateObject, ensures_attempt]
  rintro _ _ (⟨-, -, rfl, rfl⟩ | ⟨hfails, -⟩)
  · -- the record is there, and its size fits, so that it can be updated again
    have hagain : ∀ {t : Status} {u : Snapshot}, u.object? r.key = some (r.entry.turn .deleting) →
        T.Fits (r.turn t).size ∧ (u.object? (r.turn t).key).isSome = true := by
      intro t u hu
      exact ⟨hfits, by simp [hu]⟩
    rintro _ w (⟨rfl, rfl⟩ | ⟨hkeep, e, rfl, hloses⟩)
    · simp only [Reply.attempted_ok, ensures_bind, ensures_updateObject]
      rintro _ _ (⟨-, -, rfl, rfl⟩ | ⟨hfails, -⟩)
      · simpa only [ObjectRecord.key_turn, ObjectRecord.entry_turn, Snapshot.setObject_setBytes,
          Snapshot.setObject_setObject, Reply.called_ok, ensures_pure] using hdone
      · exact absurd (hagain (by simp)) hfails
    · simp only [Reply.attempted_failed, ensures_bind, ensures_updateObject]
      rintro _ _ (⟨-, -, rfl, rfl⟩ | ⟨hfails, -⟩)
      · refine hkept hkeep _ _ ?_
        simpa [Snapshot.setObject_setObject] using
          hloses.setObject r.key (r.entry.turn .deletionFailed)
      · exact absurd (hagain (by simp [hloses.object?])) hfails
  · exact absurd ⟨hfits, by simp [hr]⟩ hfails

theorem ensures_erase {k : Key} {r : ObjectRecord} (hk : r.key = k) (hr : v.object? k = some r.entry)
    (ht : erasable r.status) : (erase k r).Ensures T (fun a _ => Erased T k v a) () v := by
  by_cases hfits : T.Fits r.size
  · exact ensures_erase_of_fits hk hr hfits ⟨r.entry, hr, ht, rfl⟩
      fun hkeep _ _ hloses => .inr ⟨hkeep, r.entry, hr, ht, hloses⟩
  · simp only [erase, ensures_bind, ensures_updateObject]
    rintro _ _ (⟨hfits', -⟩ | ⟨-, e, rfl, rfl⟩)
    · exact absurd hfits' hfits
    · exact .inl rfl

/-- Deleting an object. -/
theorem ensures_delete (k : Key) : (delete k).Ensures T (fun a _ => Erased T k v a) () v := by
  simp only [delete, ensures_bind]
  refine ensures_info k (fun _ _ => .inl rfl) fun r hr hk => ?_
  dsimp only
  split
  · exact ensures_erase hk hr (.inl ‹_›)
  · exact ensures_erase hk hr (.inr (.inl ‹_›))
  · exact ensures_erase hk hr (.inr (.inr ‹_›))
  · exact .inl rfl
  · exact .inl rfl

end ObjectResource

namespace BucketResource

/-- What has become of a store when a bucket was to be created. -/
def Created (name : String) (v w : Snapshot) : Prop :=
  w = v ∨ isBucketName name = true ∧ (v.bucket? name).all (·.isReplaceable) = true ∧
    w = v.setBucket name .ready

/-- Creating a bucket. -/
theorem ensures_create (name site : String) (now : Instant) :
    (create name site now).Ensures T (fun _ _ => Created name v) () v := by
  cases hname : isBucketName name with
  | false =>
    rw [create, checkBucketName, hname]
    exact .inl rfl
  | true =>
    rw [create, checkBucketName, hname, if_pos rfl]
    simp only [ensures_bind, ensures_makeContainer, ensures_call]
    rintro (_ | _ | _) _ rfl
    · rintro _ _ (⟨hfree, rfl, rfl⟩ | ⟨t, ht, -, rfl, rfl⟩)
      · exact .inr ⟨hname, hfree, rfl⟩
      · exact .inl rfl
    · exact .inl rfl
    · exact .inl rfl

/-! ## Deleting -/

/-- What has become of some records of a bucket that were marked deleted. -/
structure Swept (l : List ObjectRecord) (v w : Snapshot) : Prop where
  bucket? : w.bucket? = v.bucket?
  bytes? : w.bytes? = v.bytes?
  object? : ∀ k, (w.object? k = v.object? k ∧ ∀ r ∈ l, r.key = k → r.status = .deleted) ∨
    ∃ r ∈ l, r.key = k ∧ w.object? k = some (r.entry.turn .deleted)

/-- A record that is deleted already is passed over. -/
theorem Swept.pass {l : List ObjectRecord} {w : Snapshot} {r : ObjectRecord} (h : Swept l v w)
    (hr : r.status = .deleted) : Swept (r :: l) v w where
  bucket? := h.bucket?
  bytes? := h.bytes?
  object? k := by
    rcases h.object? k with ⟨hk, hl⟩ | ⟨x, hx, hxk, hw⟩
    · exact .inl ⟨hk, List.forall_mem_cons.mpr ⟨fun _ => hr, hl⟩⟩
    · exact .inr ⟨x, List.mem_cons_of_mem _ hx, hxk, hw⟩

/-- A record is marked before the others. -/
theorem Swept.mark {l : List ObjectRecord} {w : Snapshot} {r : ObjectRecord}
    (h : Swept l (v.setObject r.key (r.entry.turn .deleted)) w) : Swept (r :: l) v w where
  bucket? := h.bucket?
  bytes? := h.bytes?
  object? k := by
    rcases h.object? k with ⟨hk, hl⟩ | ⟨x, hx, hxk, hw⟩
    · by_cases hkr : k = r.key
      · exact .inr ⟨r, List.mem_cons_self, hkr.symm, by rw [hk]; simp [hkr]⟩
      · refine .inl ⟨by simp [hk, hkr], List.forall_mem_cons.mpr ⟨fun hrk => ?_, hl⟩⟩
        exact absurd hrk.symm hkr
    · exact .inr ⟨x, List.mem_cons_of_mem _ hx, hxk, hw⟩

theorem ensures_sweep {l : List ObjectRecord}
    (hl : ∀ r ∈ l, (v.object? r.key).isSome = true ∧ T.Fits r.size) :
    (sweep l).Ensures T (fun a _ w => a = .ok () ∧ Swept l v w) () v := by
  induction l generalizing v with
  | nil => exact ⟨rfl, rfl, rfl, fun k => .inl ⟨rfl, by simp⟩⟩
  | cons r rest ih =>
    obtain ⟨⟨hr, hfits⟩, hrest⟩ := List.forall_mem_cons.mp hl
    rw [sweep]
    split
    · simp only [ensures_bind, ensures_updateObject]
      rintro _ _ (⟨-, -, rfl, rfl⟩ | ⟨hfails, -⟩)
      · refine (ih fun x hx => ⟨?_, (hrest x hx).2⟩).mono fun a _ w h => ⟨h.1, .mark h.2⟩
        by_cases hxr : x.key = r.key <;> simp [hxr, (hrest x hx).1]
      · exact absurd ⟨hfits, hr⟩ hfails
    · rename_i hdeleted
      exact (ih hrest).mono fun a _ w h => ⟨h.1, h.2.pass (Decidable.not_not.mp hdeleted)⟩

/-- A bucket that was emptied: its bytes are gone, and what is left of its objects is deleted. -/
structure Emptied (name : String) (v w : Snapshot) : Prop where
  bucket? : w.bucket? = (v.setBucket name .deleted).bucket?
  bytes? : w.bytes? = (v.clear name).bytes?
  object? : ∀ k, w.object? k = v.object? k ∨ k.bucket = name ∧ (v.object? k).isSome = true
  deleted : ∀ k e, k.bucket = name → w.object? k = some e → e.status = .deleted

theorem Swept.emptied {name : String} {l : List ObjectRecord} {t : Status} {w : Snapshot}
    (h : Swept l ((v.setBucket name t).clear name) w)
    (hl : ∀ r ∈ l, r.bucket = name ∧ (v.object? r.key).isSome = true)
    (hall : ∀ n e, v.object? ⟨name, n⟩ = some e → ∃ r ∈ l, r.key = ⟨name, n⟩ ∧ r.entry = e) :
    Emptied name v (w.setBucket name .deleted) where
  bucket? := by
    funext b
    by_cases hb : b = name <;> simp [h.bucket?, hb]
  bytes? := h.bytes?
  object? k := by
    rcases h.object? k with ⟨hk, -⟩ | ⟨r, hr, rfl, -⟩
    · exact .inl (by simpa using hk)
    · exact .inr (hl r hr)
  deleted k e hk he := by
    rcases h.object? k with ⟨hw, hdeleted⟩ | ⟨r, hr, rfl, hw⟩
    · obtain ⟨b, n⟩ := k
      obtain rfl : b = name := hk
      obtain ⟨r, hr, hrk, rfl⟩ := hall n e (by simpa [hw] using he)
      exact hdeleted r hr hrk
    · obtain rfl : r.entry.turn .deleted = e := by simpa [hw] using he
      rfl

/-- What has become of a store when a bucket was to be deleted. -/
def Removed (T : Terms) (name : String) (v w : Snapshot) : Prop :=
  w = v ∨ (v.bucket? name).isSome = true ∧
    (∀ k e, k.bucket = name → v.object? k = some e → e.status ∉ liveStatuses) ∧
    (T.MayKeep ∧ (v.setBucket name .deletionFailed).Loses w (isInside name · = true) ∨ Emptied name v w)

theorem ensures_info (name : String) {Q : Except Trouble BucketRecord → Unit → Snapshot → Prop}
    (hrefused : (∀ t, v.bucket? name = some t → t = .deleted) → ∀ e, Q (.error e) () v)
    (hok : ∀ r, v.bucket? name = some r.status → Q (.ok r) () v) : (info name).Ensures T Q () v := by
  simp only [info, ensures_bind, ensures_call]
  rintro _ w ⟨r, rfl, hr, rfl⟩
  cases r with
  | none => exact hrefused (fun t ht => by rw [← hr] at ht; cases ht) _
  | some r =>
    dsimp only [Reply.called_ok]
    split
    · rename_i hdeleted
      refine hrefused (fun t ht => ?_) _
      rw [← hr] at ht
      cases ht
      exact hdeleted
    · exact hok r hr.symm

/-- What is left to do once a bucket is known to hold nothing live. -/
def clear (name : String) (r : BucketRecord) : Action Unit BucketRecord := do
  Action.call (.setBucketStatus name .deleting)
  match ← Action.attempt (.eraseContainer name) with
  | .error _ =>
    Action.call (.setBucketStatus name .deletionFailed)
    Action.refuse (.internal "storage delete failed")
  | .ok () => pure ()
  sweep (← Action.call (.listObjects name {}))
  Action.call (.setBucketStatus name .deleted)
  return { r with status := .deleted }

theorem delete_eq (name : String) : delete name = (do
    let r ← info name
    if r.status ≠ .ready ∧ r.status ≠ .deletionFailed then
      Action.refuse (.conflict s!"bucket cannot be deleted: {name}, status {r.status.name}")
    if !(← Action.call (.listObjects name { statuses := liveStatuses })).isEmpty then
      Action.refuse (.notAcceptable s!"bucket is not empty: {name}")
    clear name r) := rfl

theorem ensures_clear {name : String} {r : BucketRecord} (hr : v.bucket? name = some r.status)
    {Q : Except Trouble BucketRecord → Unit → Snapshot → Prop}
    (hdone : ∀ w, Emptied name v w → Q (.ok { r with status := .deleted }) () w)
    (hkept : T.MayKeep → ∀ e w, (v.setBucket name .deletionFailed).Loses w (isInside name · = true) →
      Q (.error e) () w) : (clear name r).Ensures T Q () v := by
  simp only [clear, ensures_bind, ensures_setBucketStatus, ensures_attempt]
  rintro _ _ (⟨-, rfl, rfl⟩ | ⟨hnone, -⟩)
  · rintro _ u (⟨rfl, rfl⟩ | ⟨hkeep, e, rfl, hloses⟩)
    · simp only [Reply.attempted_ok, ensures_bind, ensures_call]
      rintro _ _ ⟨l, rfl, rfl, hl, hall⟩
      refine (ensures_sweep fun r hr => (hl r hr).2).mono ?_
      rintro _ _ u ⟨rfl, hswept⟩
      simp only [ensures_setBucketStatus]
      rintro _ _ (⟨-, rfl, rfl⟩ | ⟨hnone, -⟩)
      · refine hdone _ (hswept.emptied (fun r hr => ?_) fun n e he => ?_)
        · exact ⟨(hl r hr).1, (hl r hr).2.1⟩
        · exact hall rfl n e he (.inl rfl)
      · simp [hswept.bucket?] at hnone
    · simp only [Reply.attempted_failed, ensures_bind, ensures_setBucketStatus]
      rintro _ _ (⟨-, rfl, rfl⟩ | ⟨hnone, -⟩)
      · refine hkept hkeep _ _ ?_
        simpa [Snapshot.setBucket_setBucket] using hloses.setBucket name .deletionFailed
      · simp [hloses.bucket?] at hnone
  · rw [hr] at hnone
    cases hnone

/-- Deleting a bucket. -/
theorem ensures_delete (name : String) :
    (delete name).Ensures T (fun _ _ => Removed T name v) () v := by
  simp only [delete_eq, ensures_bind]
  refine ensures_info name (fun _ _ => .inl rfl) fun r hr => ?_
  dsimp only
  split
  · exact .inl rfl
  · simp only [ensures_bind, ensures_call]
    rintro _ v ⟨live, rfl, rfl, -, hlive⟩
    dsimp only [Reply.called_ok]
    split
    · exact .inl rfl
    · rename_i hempty
      obtain rfl : live = [] := by simpa using hempty
      have hidle : ∀ k e, k.bucket = name → v.object? k = some e → e.status ∉ liveStatuses := by
        rintro ⟨b, n⟩ e rfl he hmem
        obtain ⟨_, hr, -⟩ := hlive rfl n e he (.inr hmem)
        cases hr
      have hthere : (v.bucket? name).isSome = true := by rw [hr]; rfl
      exact ensures_clear hr (fun _ hemptied => .inr ⟨hthere, hidle, .inr hemptied⟩)
        fun hkeep _ _ hloses => .inr ⟨hthere, hidle, .inl ⟨hkeep, hloses⟩⟩

end BucketResource
end Depot
