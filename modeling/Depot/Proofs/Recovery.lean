import Depot.Proofs.Consistency
import Depot.Proofs.Store.Backend

/-!
# Failures can be cleaned up

However requests end and wherever the storage fails, no name is lost: as soon as the storage does what it is
told, an object that is not deleted can be deleted, and a bucket that holds nothing ready can be deleted and
created again. Their names are then free for uploads.

## Main results

* `Tidy.step` — every request leaves behind only what can be deleted.
* `play_recovers` — after any history, everything can be deleted, and used again.
-/

namespace Depot

open Depot.Action
open ObjectResource (Context Free State Written erasable uploading failed)

variable {T : Terms} {v w : Snapshot} {t : Turn} {r : Result} {k : Key} {e : Entry} {name : String}

/-! ## What requests leave behind -/

/-- Whether a bucket or an object is deleted, or can be deleted. -/
structure Tidy (T : Terms) (v : Snapshot) : Prop where
  buckets : ∀ b s, v.bucket? b = some s → s = .ready ∨ s = .deleted ∨ s = .deletionFailed
  objects : ∀ k e, v.object? k = some e → e.status = .deleted ∨ erasable e.status ∧ T.Fits e.size

namespace Tidy

theorem empty : Tidy T .empty := ⟨fun _ _ h => (by cases h), fun _ _ h => (by cases h)⟩

theorem setBucket (hv : Tidy T v) (name : String) {s : Status}
    (hs : s = .ready ∨ s = .deleted ∨ s = .deletionFailed) : Tidy T (v.setBucket name s) where
  buckets b u hb := by
    by_cases h : b = name
    · obtain rfl : s = u := by simpa [h] using hb
      exact hs
    · exact hv.buckets b u (by simpa [h] using hb)
  objects := hv.objects

theorem setObject (hv : Tidy T v) (k : Key) (he : e.status = .deleted ∨ erasable e.status ∧ T.Fits e.size) :
    Tidy T (v.setObject k e) where
  buckets := hv.buckets
  objects l x hx := by
    by_cases h : l = k
    · obtain rfl : e = x := by simpa [h] using hx
      exact he
    · exact hv.objects l x (by simpa [h] using hx)

theorem setBytes (hv : Tidy T v) (path : String) (b : Option Bytes) : Tidy T (v.setBytes path b) :=
  ⟨hv.buckets, hv.objects⟩

theorem loses (hv : Tidy T v) {within : String → Prop} (h : v.Loses w within) : Tidy T w :=
  ⟨h.bucket? ▸ hv.buckets, h.object? ▸ hv.objects⟩

theorem emptied (hv : Tidy T v) (h : BucketResource.Emptied name v w) : Tidy T w where
  buckets := h.bucket? ▸ (hv.setBucket name (.inr (.inl rfl))).buckets
  objects k e hk := by
    by_cases hb : k.bucket = name
    · exact .inl (h.deleted k e hb hk)
    · rcases h.object? k with hsame | ⟨hb', -⟩
      · exact hv.objects k e (hsame ▸ hk)
      · exact absurd hb' hb

/-- An object that could be deleted before it was tried can be deleted afterwards. -/
theorem fits (hv : Tidy T v) (hk : v.object? k = some e) (he : erasable e.status) : T.Fits e.size := by
  rcases hv.objects k e hk with hdeleted | ⟨-, hfits⟩
  · rw [hdeleted] at he
    rcases he with h | h | h <;> cases h
  · exact hfits

/-- Every request leaves behind only what can be deleted, if the catalog can take what is uploaded. -/
theorem step (hv : Tidy T v) (h : t.Effect T v w r) (hfits : ∀ d, t = .upload d → d.Fits T) : Tidy T w := by
  cases h with
  | createBucket h =>
    rcases h with rfl | ⟨-, -, rfl⟩
    · exact hv
    · exact hv.setBucket _ (.inl rfl)
  | @deleteBucket name _ h =>
    rcases h with rfl | ⟨-, -, ⟨-, hloses⟩ | hemptied⟩
    · exact hv
    · exact (hv.setBucket name (.inr (.inr rfl))).loses hloses
    · exact hv.emptied hemptied
  | @deleteObject k a h =>
    cases a with
    | ok x =>
      obtain ⟨e, -, -, rfl⟩ := h
      exact (hv.setObject k (.inl rfl)).setBytes _ _
    | error x =>
      rcases h with rfl | ⟨-, e, hk, he, hloses⟩
      · exact hv
      · have hsize := hv.fits hk he
        have hfailed := hv.setObject (e := e.turn .deletionFailed) k (.inr ⟨.inr (.inr rfl), hsize⟩)
        exact hfailed.loses hloses
  | @upload d _ _ h =>
    obtain ⟨hzero, hplain⟩ := hfits d rfl
    cases h with
    | refused => exact hv
    | failed => exact hv.setObject _ (.inr ⟨.inr (.inl rfl), hzero⟩)
    -- an upload that the catalog could not record is none that fits
    | unfit _ _ hsize hbytes => exact absurd (hplain _ hbytes) hsize
    | stored _ hbytes => exact (hv.setObject _ (.inr ⟨.inl rfl, hplain _ hbytes⟩)).setBytes _ _
  | pull h hw => exact hw ▸ hv

end Tidy

/-! ## Requests to a store whose storage does what it is told -/

namespace ObjectResource

/-- An object that can be deleted is deleted. -/
theorem wp_delete_of_erasable (hT : ¬ T.MayKeep) (hk : v.object? k = some e) (he : erasable e.status)
    (hfits : T.Fits e.size) : (delete k).wp T.serving (fun a _ w => ∃ r, a = .ok r ∧
      w = (v.setObject k (e.turn .deleted)).setBytes k.path none) () v := by
  refine Ensures.serving ?_
  simp only [delete, ensures_bind]
  refine ensures_info k (fun hnone => ?_) fun r hr hkey => ?_
  · cases hnone.symm.trans hk
  · obtain rfl : r.entry = e := Option.some.inj (hr.symm.trans hk)
    have herase : (erase k r).Ensures T (fun a _ w => ∃ r', a = .ok r' ∧
        w = (v.setObject k (r.entry.turn .deleted)).setBytes k.path none) () v :=
      ensures_erase_of_fits hkey hr hfits ⟨_, rfl, rfl⟩ fun hkeep => absurd hkeep hT
    dsimp only
    rcases he with h | h | h <;>
      · rw [ObjectRecord.status_entry] at h
        rw [h]
        exact herase

end ObjectResource

namespace BucketResource

/-- A bucket that holds nothing live is deleted. -/
theorem wp_delete_of_idle (hT : ¬ T.MayKeep) {s : Status} (hs : v.bucket? name = some s)
    (hready : s = .ready ∨ s = .deletionFailed)
    (hidle : ∀ k e, k.bucket = name → v.object? k = some e → e.status ∉ liveStatuses) :
    (delete name).wp T.serving (fun a _ w => (∃ r, a = .ok r) ∧ Emptied name v w) () v := by
  simp only [delete_eq, wp_bind]
  refine Ensures.serving (ensures_info name (fun hgone _ => ?_) fun r hr => ?_)
  · rcases hready with rfl | rfl <;> cases hgone _ hs
  · obtain rfl : s = r.status := Option.some.inj (hs.symm.trans hr)
    have herasable : ¬ (r.status ≠ .ready ∧ r.status ≠ .deletionFailed) := by
      rcases hready with h | h <;> simp [h]
    dsimp only
    rw [if_neg herasable]
    simp only [wp_bind, wp_call]
    rintro _ v ⟨live, rfl, rfl, hlive, -⟩ hserves
    obtain rfl : live = [] := by
      refine List.eq_nil_iff_forall_not_mem.mpr fun x hx => ?_
      obtain ⟨hentry, haccepts⟩ := hserves x hx
      refine hidle x.key x.entry (hlive x hx).1 hentry ?_
      rw [Filter.accepts_statuses rfl] at haccepts
      simpa [liveStatuses] using haccepts
    exact Ensures.serving (ensures_clear hs (fun _ hemptied => ⟨⟨_, rfl⟩, hemptied⟩)
      fun hkeep => absurd hkeep hT)

/-- A bucket that is deleted is created again. -/
theorem wp_create_of_deleted (hname : isBucketName name = true) (hs : v.bucket? name = some .deleted)
    (site : String) (now : Instant) : (create name site now).wp T.serving
      (fun a _ w => (∃ r, a = .ok r) ∧ w = v.setBucket name .ready) () v := by
  rw [create, checkBucketName, hname, if_pos rfl]
  simp only [wp_bind, wp_makeContainer, wp_call]
  rintro _ _ rfl rfl
  rintro _ _ (⟨-, rfl, rfl⟩ | ⟨t, ht, hkept, rfl, rfl⟩) -
  · exact ⟨⟨_, rfl⟩, rfl⟩
  · rw [hs] at ht
    cases ht
    cases hkept

end BucketResource

namespace Turn

theorem wp_deleteObject (hT : ¬ T.MayKeep) (hk : v.object? k = some e) (he : erasable e.status)
    (hfits : T.Fits e.size) : (deleteObject k).course.wp T.serving (fun x w => ∃ a, x = .object (.ok a) ∧
      w = (v.setObject k (e.turn .deleted)).setBytes k.path none) v := by
  simp only [course, Program.wp_bind, Program.wp_pure, wp_start]
  refine (ObjectResource.wp_delete_of_erasable hT hk he hfits).mono ?_
  rintro _ _ _ ⟨a, rfl, hw⟩
  exact ⟨a, rfl, hw⟩

theorem wp_deleteBucket (hT : ¬ T.MayKeep) {s : Status} (hs : v.bucket? name = some s)
    (hready : s = .ready ∨ s = .deletionFailed)
    (hidle : ∀ k e, k.bucket = name → v.object? k = some e → e.status ∉ BucketResource.liveStatuses) :
    (deleteBucket name).course.wp T.serving
      (fun x w => (∃ a, x = .bucket (.ok a)) ∧ BucketResource.Emptied name v w) v := by
  simp only [course, Program.wp_bind, Program.wp_pure, wp_start]
  refine (BucketResource.wp_delete_of_idle hT hs hready hidle).mono ?_
  rintro _ _ _ ⟨⟨a, rfl⟩, hw⟩
  exact ⟨⟨a, rfl⟩, hw⟩

theorem wp_createBucket (hname : isBucketName name = true) (hs : v.bucket? name = some .deleted) (site : String)
    (now : Instant) : (createBucket name site now).course.wp T.serving
      (fun x w => (∃ a, x = .bucket (.ok a)) ∧ w = v.setBucket name .ready) v := by
  simp only [course, Program.wp_bind, Program.wp_pure, wp_start]
  refine (BucketResource.wp_create_of_deleted hname hs site now).mono ?_
  rintro _ _ _ ⟨⟨a, rfl⟩, hw⟩
  exact ⟨⟨a, rfl⟩, hw⟩

end Turn

namespace Deposit

/-- An upload before it is admitted. -/
def begun (d : Deposit) : Upload State Written where
  resource := .ofHeaders d.headers
  stream := .ofSource d.body
  patience := d.settings.responseTimeout

/-- Whether an upload would be admitted. -/
def Admitted {σ : Type} (perform : (c : Call) → σ → Reply c.Answer × σ) (d : Deposit) (s : σ) : Prop :=
  (((Upload.accept (ObjectResource.hooks d.context d.write) d.session d.key).start d.begun).run perform s).1.1 =
    .ok ()

/-- An upload under a free name is admitted. -/
theorem wp_accept_of_free (d : Deposit) (hfree : Free d.key v) (hfits : T.Fits 0) :
    (Upload.accept (ObjectResource.hooks d.context d.write) d.session d.key).wp T.serving
      (fun a _ _ => a = .ok ()) d.begun v := by
  rw [Upload.accept, wp_bind]
  refine Upload.wp_prepare rfl ?_
  simp only [Upload.hook, wp_bind, wp_zoom, ObjectResource.hooks]
  refine ObjectResource.wp_accept rfl ?_
  rintro _ v ⟨x, rfl, hx, rfl⟩ -
  have hready : ObjectResource.isReady (.ok x) = true := by
    obtain ⟨b, rfl, hb⟩ := Option.map_eq_some_iff.mp (hx.trans hfree.2)
    simp [ObjectResource.isReady, hb]
  rw [if_pos hready]
  rintro _ w (⟨-, -, -, rfl, rfl⟩ | ⟨t, ht, hkept, rfl, rfl⟩ | ⟨e, rfl, rfl⟩) hserves s'
  · intro _
    simp only [wp_get, wp_ofProgram, Upload.adopt, wp_modify]
    exact Program.Ensures.serving (Program.ensures_of_forall fun _ _ => trivial)
  · obtain ⟨y, hy, rfl⟩ := Option.map_eq_some_iff.mp ht
    rw [ObjectResource.key_newRecord] at hy
    have hthere := hfree.1
    rw [hy, Option.all_some, hkept] at hthere
    cases hthere
  · exact absurd ⟨hfree.2, hfits⟩ hserves

end Deposit

/-! ## After any history -/

section Recovery

variable {σ : Type} {B : Backend σ} {s : Catalog × σ}

/-- Whether everything in a store can be deleted, and the names used again. -/
structure Recovers (B : Backend σ) (s : Catalog × σ) : Prop where
  /-- An object that is not deleted can be deleted, and uploaded again where its bucket is ready. -/
  object : ∀ k r, s.1.getObject k = some r → r.status ≠ .deleted →
    ∃ a s', (Turn.deleteObject k).course.run B.beside s = (.object (.ok a), s') ∧
      (s'.1.hasBucket k.bucket = true → ∀ d : Deposit, d.key = k → d.Admitted B.beside s')
  /-- A bucket that is not deleted and holds nothing ready can be deleted and then be created again, whereupon
  every object can be uploaded into it. -/
  bucket : ∀ name b, s.1.getBucket name = some b → b.status ≠ .deleted →
    (∀ k r, k.bucket = name → s.1.getObject k = some r → r.status ≠ .ready) →
    ∃ a s', (Turn.deleteBucket name).course.run B.beside s = (.bucket (.ok a), s') ∧
      ∀ site now, ∃ a' s'', (Turn.createBucket name site now).course.run B.beside s' = (.bucket (.ok a'), s'') ∧
        ∀ d : Deposit, d.key.bucket = name → d.Admitted B.beside s''

theorem Deposit.admitted_of_free (hs : Backend.Sound T s) (hobeys : B.Obeys s.2) (hfits : T.Fits 0) {d : Deposit}
    (hfree : Free d.key (B.view s)) : d.Admitted B.beside s := by
  have hwp := wp_start (R := fun x _ => x.1 = .ok ()).mpr (d.wp_accept_of_free hfree hfits)
  obtain ⟨_, _, hrun, -, -, hok⟩ := Backend.run_of_serving hs hobeys hwp
  rw [Deposit.Admitted, hrun]
  exact hok

/-- What requests leave behind can be deleted, and its names used again. -/
theorem Tidy.recovers (hT : ¬ T.MayKeep) (hfits : T.Fits 0) (hs : Backend.Sound T s) (hobeys : B.Obeys s.2)
    (hnamed : Named (B.view s)) (htidy : Tidy T (B.view s)) : Recovers B s where
  object k r hr hstatus := by
    have hentry : (B.view s).object? k = some r.entry := Backend.object?_eq_some_iff.mpr ⟨r, hr, rfl⟩
    obtain ⟨herasable, hsize⟩ := (htidy.objects k _ hentry).resolve_left hstatus
    obtain ⟨_, s', hrun, hs', hobeys', a, rfl, hview⟩ :=
      Backend.run_of_serving hs hobeys (Turn.wp_deleteObject hT hentry herasable hsize)
    refine ⟨a, s', hrun, fun hready d hd => ?_⟩
    subst hd
    refine Deposit.admitted_of_free hs' hobeys' hfits ⟨?_, (Catalog.hasBucket_iff _).mp hready⟩
    simp [hview, Status.isReplaceable]
  bucket name b hb hstatus hidle := by
    have hbucket : (B.view s).bucket? name = some b.status := by rw [Backend.view, Catalog.bucket?_view, hb]; rfl
    have herasable : b.status = .ready ∨ b.status = .deletionFailed :=
      (htidy.buckets name _ hbucket).imp_right fun h => h.resolve_left hstatus
    have hlive : ∀ k e, k.bucket = name → (B.view s).object? k = some e →
        e.status ∉ BucketResource.liveStatuses := by
      intro k e hk he
      have hleft := htidy.objects k e he
      obtain ⟨r, hr, rfl⟩ := Backend.object?_eq_some_iff.mp he
      have hunready : r.entry.status ≠ .ready := hidle k r hk hr
      rcases hleft with h | ⟨h | h | h, -⟩
      · exact h ▸ (by decide)
      · exact absurd h hunready
      · exact h ▸ (by decide)
      · exact h ▸ (by decide)
    obtain ⟨_, s', hrun, hs', hobeys', ⟨a, rfl⟩, hemptied⟩ :=
      Backend.run_of_serving hs hobeys (Turn.wp_deleteBucket hT hbucket herasable hlive)
    refine ⟨a, s', hrun, fun site now => ?_⟩
    have hname : isBucketName name = true := hnamed.buckets name (by simp [hbucket])
    have hdeleted : (B.view s').bucket? name = some .deleted := by simp [hemptied.bucket?]
    obtain ⟨_, s'', hrun', hs'', hobeys'', ⟨a', rfl⟩, hview⟩ :=
      Backend.run_of_serving hs' hobeys' (Turn.wp_createBucket hname hdeleted site now)
    refine ⟨a', s'', hrun', fun d hd => Deposit.admitted_of_free hs'' hobeys'' hfits ⟨?_, by simp [hview, hd]⟩⟩
    rw [hview, Snapshot.object?_setBucket]
    cases hthere : (B.view s').object? d.key with
    | none => rfl
    | some e => simp [hemptied.deleted d.key e hd hthere, Status.isReplaceable]

/-- After any history that begins with nothing, on a catalog that does not fail, and once the storage does what
it is told, everything can be deleted, and the names used again. -/
theorem play_recovers (B : Backend σ) {engine : String} {c : Catalog} (hc : Catalog.open' engine = .ok c) {t : σ}
    (ht : ∀ path, B.bytes? t path = none) (turns : List Turn) (hfits : ∀ d, .upload d ∈ turns → d.Fits c.terms)
    (hprompt : ∀ x ∈ (play B.beside turns (c, t)).1, x.result.Prompt)
    (hobeys : B.Obeys (play B.beside turns (c, t)).2.2) : Recovers B (play B.beside turns (c, t)).2 := by
  have hinit : Named (B.view (c, t)) ∧ Tidy c.terms (B.view (c, t)) := B.view_open hc ht ▸ ⟨.empty, .empty⟩
  have hs : Backend.Sound c.terms (c, t) := Backend.sound_open hc
  obtain ⟨hsound, hnamed, hleft⟩ := play_induction (B.contract c.mayKeep_terms)
    (fun _ v => Named v ∧ Tidy c.terms v)
    (fun hturn hv heffect => ⟨hv.1.step heffect, hv.2.step heffect fun d hd => hfits d (hd ▸ hturn)⟩) [] hs hinit hprompt
  -- from here on the storage erases what it is told to, and the terms may say so
  exact Tidy.recovers (T := c.terms.strict) not_false c.fits_zero ⟨hsound.1.strict, hsound.2⟩ hobeys hnamed
    ⟨hleft.buckets, hleft.objects⟩

/-- An object that a storage failed to delete, before it began to do what it is told. -/
theorem play_recovers_flaky :
    let past := play Backend.flaky.beside (Sample.turns ++ [.deleteObject Sample.key]) (.table {}, 1, {})
    ((past.2.1.getObject Sample.key).map (·.status) = some .deletionFailed) ∧ Recovers Backend.flaky past.2 := by
  have hhealed : (play Backend.flaky.beside (Sample.turns ++ [.deleteObject Sample.key]) (.table {}, 1, {})).2.2 =
      (0, (play Backend.flaky.beside (Sample.turns ++ [.deleteObject Sample.key]) (.table {}, 1, {})).2.2.2) :=
    Prod.ext (by decide) rfl
  have hfits : ∀ d, .upload d ∈ Sample.turns ++ [.deleteObject Sample.key] →
      d.Fits (Catalog.table {}).terms := by
    intro d hd
    obtain rfl : d = Sample.deposit := by simpa [Sample.turns] using hd
    refine ⟨Catalog.fits_zero _, fun plain hplain => ?_⟩
    obtain rfl : plain = Sample.deposit.body.bytes := hplain
    exact Nat.lt_of_lt_of_le (by decide : _ < 4) (by decide)
  have hopen : Catalog.open' "sqlite" = .ok (.table {}) := rfl
  exact ⟨by decide, play_recovers Backend.flaky hopen (fun _ => rfl) _ hfits (by decide)
    (hhealed ▸ Backend.obeys_flaky _)⟩

end Recovery

end Depot
