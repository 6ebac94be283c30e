import Depot.Proofs.Concurrent.Exclusion
import Depot.Proofs.Concurrent.Objects

/-!
# Buckets and what is uploaded into them

Requests that delete and create a bucket, and uploads into it, that run beside each other. No record is
registered in a bucket that is marked as about to be deleted; so if nothing in it is live as it is marked,
nothing in it will be. A deletion looks for what is live before it marks the bucket, by another call, and
does not look again.

## Main results

* `Guarded.step` — what a call preserves, if a bucket is only marked where nothing in it is live.
* `Registry.deleted_vacant` — a bucket that is deleted holds nothing live, and a ready object is left alone.
* `Store.deleted_with_ready` — not so, if a record is registered before the bucket is marked.
-/

namespace Depot

open BucketResource (liveStatuses)

/-- Whether a request concerns a bucket, or uploads into it. -/
def Turn.In (name : String) : Turn → Prop
  | upload d => d.key.bucket = name
  | deleteBucket bucket | createBucket bucket _ _ => bucket = name
  | _ => False

/-- The bucket that a call marks as about to be deleted. -/
def Call.closed? : Call → Option String
  | .setBucketStatus name t => if t = .deleting then some name else none
  | _ => none

/-- Whether nothing in a bucket is live. -/
def Ledger.Vacant (x : Ledger) (name : String) : Prop :=
  ∀ k e, k.bucket = name → x.object? k = some e → e.status ∉ liveStatuses

/-- Whether a bucket is in a state in which it may be deleted, and nothing in it is live. -/
structure Ledger.MayClose (x : Ledger) (name : String) : Prop where
  status : x.bucket? name = some .ready ∨ x.bucket? name = some .deletionFailed
  vacant : x.Vacant name

instance decidableListsNothing {α : Type} : (a : Reply (List α)) → Decidable (a = .ok [])
  | .ok [] => isTrue rfl
  | .ok (_ :: _) => isFalse nofun
  | .failed _ | .crashed _ => isFalse nofun

section Closing

variable {σ : Type} {T : Terms} {perform : (c : Call) → σ → Reply c.Answer × σ}

/-- Whether a bucket may be deleted by what a deletion looks at before it marks the bucket. -/
def Registry.Closable (R : Registry T perform) (s : σ) (name : String) : Prop :=
  ((R.ledger s).bucket? name = some .ready ∨ (R.ledger s).bucket? name = some .deletionFailed) ∧
    (perform (.listObjects name { statuses := liveStatuses }) s).1 = .ok []

instance decidableClosable (R : Registry T perform) (s : σ) (name : String) : Decidable (R.Closable s name) :=
  have : Decidable ((perform (.listObjects name { statuses := liveStatuses }) s).1 = .ok []) :=
    decidableListsNothing _
  inferInstanceAs (Decidable (_ ∧ _))

theorem Registry.Closable.mayClose {R : Registry T perform} {s : σ} {name : String} (hs : R.Sound s)
    (h : R.Closable s name) : (R.ledger s).MayClose name := by
  obtain ⟨l, hl, -, -, hall⟩ := (R.allows (.listObjects name { statuses := liveStatuses }) s hs).allows
  obtain rfl : [] = l := by simpa using h.2.symm.trans hl
  refine ⟨h.1, ?_⟩
  rintro ⟨_, object⟩ e rfl he hlive
  obtain ⟨r, hr, -⟩ := hall rfl object e he (.inr hlive)
  cases hr

end Closing

section Guarding

variable {ι : Type} [DecidableEq ι] {T : Terms} {t : ι → Turn} {name : String} {p : ι → Phase} {x y : Ledger}
  {q : Phase} {i : ι} {c : Call}

/-- A bucket is deleted by one request at a time, and nothing in it is live by then. -/
structure Guarded (name : String) (t : ι → Turn) (p : ι → Phase) (x : Ledger) : Prop where
  held : Held t p x
  swept : ∀ i l, p i = .sweeping l →
    x.bucket? name = some .deleting ∧ x.Vacant name ∧ ∀ r ∈ l, r.bucket = name
  sole : ∀ i j l l', p i = .sweeping l → p j = .sweeping l' → i = j
  deleted : x.bucket? name = some .deleted → x.Vacant name

/-- A call that does not concern the bucket. -/
theorem Guarded.keep (h : Guarded name t p x) (hheld : Held t (Function.update p i q) y)
    (hy : y.bucket? = x.bucket?) (hvacant : x.bucket? name ≠ some .ready → x.Vacant name → y.Vacant name)
    (hq : ∀ l, q = .sweeping l → (∃ l', p i = .sweeping l') ∧ ∀ r ∈ l, r.bucket = name) :
    Guarded name t (Function.update p i q) y := by
  have hswept : ∀ j l, Function.update p i q j = .sweeping l →
      (∃ l', p j = .sweeping l') ∧ ∀ r ∈ l, r.bucket = name := by
    intro j l hj
    by_cases hji : j = i
    · subst hji
      rw [Function.update_self] at hj
      exact hq l hj
    · rw [Function.update_of_ne hji] at hj
      exact ⟨⟨l, hj⟩, (h.swept j l hj).2.2⟩
  refine ⟨hheld, fun j l hj => ?_, fun j j' l l' hj hj' => ?_, fun hdeleted => ?_⟩
  · obtain ⟨⟨l', hl'⟩, hl⟩ := hswept j l hj
    obtain ⟨hdeleting, hx, -⟩ := h.swept j l' hl'
    exact ⟨hy ▸ hdeleting, hvacant (by simp [hdeleting]) hx, hl⟩
  · obtain ⟨⟨m, hm⟩, -⟩ := hswept j l hj
    obtain ⟨⟨m', hm'⟩, -⟩ := hswept j' l' hj'
    exact h.sole j j' m m' hm hm'
  · rw [hy] at hdeleted
    exact hvacant (by simp [hdeleted]) (h.deleted hdeleted)

/-- A call that changes the bucket, while no other request deletes it. -/
theorem Guarded.change (hheld : Held t (Function.update p i q) y) (hothers : ∀ j, j ≠ i → ∀ l, p j ≠ .sweeping l)
    (hq : ∀ l, q = .sweeping l → y.bucket? name = some .deleting ∧ y.Vacant name ∧ ∀ r ∈ l, r.bucket = name)
    (hdeleted : y.bucket? name = some .deleted → y.Vacant name) : Guarded name t (Function.update p i q) y := by
  have hsole : ∀ j l, Function.update p i q j = .sweeping l → j = i := by
    intro j l hj
    by_contra hji
    rw [Function.update_of_ne hji] at hj
    exact hothers j hji l hj
  refine ⟨hheld, fun j l hj => ?_, fun j j' l l' hj hj' => (hsole j l hj).trans (hsole j' l' hj').symm, hdeleted⟩
  obtain rfl := hsole j l hj
  rw [Function.update_self] at hj
  exact hq l hj

/-- A call of an upload into the bucket. -/
theorem Guarded.upload {d : Deposit} (h : Guarded name t p x) (hi : t i = .upload d) (hd : d.key.bucket = name)
    (hmove : d.Moves T x (p i) q y) : Guarded name t (Function.update p i q) y := by
  -- a record that is not settled yet is live
  have hlive : (p i).held? = some .upload → ¬ x.Vacant name := by
    intro hp hx
    obtain ⟨e, he, hstatus⟩ := h.held.uploading hi hp
    exact hx d.key e hd he (by simp [hstatus, liveStatuses])
  refine h.keep (h.held.upload hi hmove) hmove.bucket? (fun hbucket hx => ?_) fun l hq => ?_
  · cases hmove with
    | waits hp hq hy => exact hy ▸ hx
    | barred hp hq hy => exact hy ▸ hx
    | occupied u hp hq hy => exact hy ▸ hx
    | admitted r hp hq hy hr hid hentry hfree hready => exact absurd (hd ▸ hready) hbucket
    | puts plain hp hq hy => exact hy ▸ hx
    | completes r plain hp => exact absurd hx (hlive (by rw [hp]; rfl))
    | fails r hp =>
      refine absurd hx (hlive ?_)
      rcases hp with ⟨b, hp⟩ | hp <;> rw [hp] <;> rfl
    | gives n hp hq hy => exact hy ▸ hx
    | strays bytes hp hq hy => exact hy ▸ hx
  · exact absurd hq (by cases hmove <;> grind)

omit [DecidableEq ι] in
/-- While the bucket is not being deleted, no request deletes it. -/
theorem Guarded.nobody (h : Guarded name t p x) (hx : x.bucket? name ≠ some .deleting) (j : ι)
    (l : List ObjectRecord) : p j ≠ .sweeping l :=
  fun hj => hx (h.swept j l hj).1

/-- A call that creates the bucket. -/
theorem Guarded.creation (h : Guarded name t p x) (hp : p i = .idle) (hmove : Turn.Creation name x (p i) q y) :
    Guarded name t (Function.update p i q) y := by
  cases hmove with
  | waits hq hy =>
    subst hy
    exact h.keep (h.held.keep rfl (.inl (by rw [hq])) (by simp [hq, hp])) rfl (fun _ => id) (by simp [hq, hp])
  | creates hq hy hfree =>
    have hnobody := h.nobody fun hdeleting => by
      rw [hdeleting] at hfree
      cases hfree
    exact .change (h.held.keep (by rw [hy]; rfl) (.inl (by rw [hq])) (by simp [hq, hp])) (fun j _ => hnobody j)
      (by simp [hq, hp]) (by simp [hy])

omit [DecidableEq ι] in
/-- What is left in a bucket is marked as deleted. -/
theorem Ledger.Vacant.record {r : ObjectRecord} (h : x.Vacant name) : (x.record (r.turn .deleted)).Vacant name := by
  intro k e hk he
  rw [Ledger.object?_record] at he
  split at he
  · obtain rfl := Option.some.inj he
    simp [liveStatuses]
  · exact h k e hk he

omit [DecidableEq ι] in
/-- Nobody holds a record in a bucket where nothing is live. -/
theorem Guarded.unheld (h : Guarded name t p x) (hin : ∀ j, (t j).In name) (hx : x.Vacant name) (j : ι) :
    (p j).held? = none := by
  cases hj : (p j).held? with
  | none => rfl
  | some u =>
    exfalso
    obtain ⟨k, e, hk, he, rfl⟩ := h.held.marked j u hj
    have hin := hin j
    cases ht : t j with
    | upload d =>
      rw [ht] at hk hin
      obtain rfl := Option.some.inj hk
      refine hx d.key e hin he ?_
      cases hp : p j <;> simp_all [Phase.held?, liveStatuses]
    | deleteObject _ | pull _ =>
      rw [ht] at hin
      exact hin.elim
    | createBucket _ _ _ | deleteBucket _ =>
      rw [ht] at hk
      cases hk

/-- A call that deletes the bucket, if it is only marked where it may be. -/
theorem Guarded.removal (h : Guarded name t p x) (hin : ∀ j, (t j).In name)
    (hok : name ∈ c.closed? → x.MayClose name) (hmove : Turn.Removal name x c (p i) q y) :
    Guarded name t (Function.update p i q) y := by
  cases hmove with
  | waits hp hq hy =>
    subst hy
    refine h.keep (h.held.keep rfl (.inr ?_) ?_) rfl (fun _ => id) ?_
    all_goals rcases hq with rfl | rfl <;> simp [Phase.held?]
  | marks hp hq hy hc =>
    obtain ⟨hstatus, hvacant⟩ := hok (by subst hc; rfl)
    have hnobody := h.nobody (by rcases hstatus with hstatus | hstatus <;> simp [hstatus])
    refine .change (h.held.keep (by rw [hy]; rfl) (.inr (by rw [hq]; rfl)) (by simp [hq])) (fun j _ => hnobody j)
      (fun l hl => ?_) (by simp [hy])
    obtain rfl : [] = l := by simpa [hq] using hl
    exact ⟨by simp [hy], hy ▸ hvacant, by simp⟩
  | clears l v hp hq hy hv =>
    subst hy
    refine h.keep (h.held.keep hv.object? (.inl (by rw [hq])) (by simp [hq, hp])) hv.bucket? (fun _ hx => ?_)
      fun l' hl' => ?_
    · intro k e hk he
      exact hx k e hk (by rwa [← hv.object?])
    · rw [hq] at hl'
      exact ⟨⟨l', hl'⟩, (h.swept i l' hl').2.2⟩
  | lists l l' hp hq hy hl =>
    subst hy
    refine h.keep (h.held.keep rfl (.inr (by rw [hq]; rfl)) (by simp [hq])) rfl (fun _ => id) fun m hm => ?_
    obtain rfl : l' = m := by simpa [hq] using hm
    exact ⟨⟨l, hp⟩, hl⟩
  | sweeps l r hp hq hr hy =>
    -- the records may be out of date, but none of those that are there is live
    obtain ⟨-, hvacant, hl⟩ := h.swept i l hp
    have hkeep : y.bucket? = x.bucket? ∧ y.Vacant name := by
      rcases hy with rfl | rfl
      · exact ⟨rfl, hvacant.record⟩
      · exact ⟨rfl, hvacant⟩
    have hunheld := h.unheld hin hvacant
    have hheld : Held t p y :=
      ⟨fun j u hu => (by cases (hunheld j).symm.trans hu), fun j _ _ _ => .inl (hunheld j), h.held.keyed⟩
    refine h.keep (by rwa [hq, Function.update_eq_self]) hkeep.1 (fun _ _ => hkeep.2) fun l' hl' => ?_
    rw [hq] at hl'
    exact ⟨⟨l', hl'⟩, (h.swept i l' hl').2.2⟩
  | ends l u hp hq hu hy =>
    obtain ⟨hdeleting, hvacant, -⟩ := h.swept i l hp
    have hobject : y.object? = x.object? := by rcases hy with rfl | rfl <;> rfl
    have hothers : ∀ j, j ≠ i → ∀ l', p j ≠ .sweeping l' := fun j hj l' hl' => hj (h.sole j i l' l hl' hp)
    refine .change (h.held.keep hobject (.inr (by rw [hq]; rfl)) (by simp [hq])) hothers (by simp [hq]) fun _ => ?_
    intro k e hk he
    exact hvacant k e hk (by rwa [← hobject])

omit [DecidableEq ι] in
/-- A call that deletes the bucket leaves a ready object as it is. -/
theorem Guarded.leaves_ready {k : Key} {e : Entry} (h : Guarded name t p x)
    (hmove : Turn.Removal name x c (p i) q y) (he : x.object? k = some e) (hready : e.status = .ready) :
    y.object? k = some e := by
  cases hmove with
  | waits hp hq hy => rw [hy, he]
  | marks hp hq hy => rw [hy, Ledger.object?_bucket, he]
  | clears l v hp hq hy hv => rw [hy, hv.object?, he]
  | lists l l' hp hq hy => rw [hy, he]
  | sweeps l r hp hq hr hy =>
    obtain ⟨-, hvacant, hl⟩ := h.swept i l hp
    rcases hy with rfl | rfl
    · -- the object is in another bucket
      have hk : k ≠ r.key := by
        rintro rfl
        exact hvacant r.key e (hl r hr) he (by simp [hready, liveStatuses])
      simp [hk, he]
    · exact he
  | ends l u hp hq hu hy => rcases hy with rfl | rfl <;> exact he

theorem Guarded.step {a : Reply c.Answer} (h : Guarded name t p x) (hin : ∀ j, (t j).In name)
    (hp : (t i).protocol.Permits (p i) c) (hok : name ∈ c.closed? → x.MayClose name) (ha : x.Allows T c a y) :
    Guarded name t (Function.update p i ((t i).protocol.next (p i) c a)) y := by
  have hi := hin i
  cases ht : t i with
  | upload d =>
    rw [ht] at hi hp
    exact h.upload ht hi (Deposit.moves hp ha)
  | deleteBucket bucket =>
    rw [ht] at hi hp
    obtain rfl : bucket = name := hi
    exact h.removal hin hok (Turn.removal_moves hp ha)
  | createBucket bucket site now =>
    rw [ht] at hi hp
    obtain rfl : bucket = name := hi
    have hidle : p i = .idle := by
      cases hpi : p i <;> first | rfl | (rw [hpi] at hp; exact hp.elim)
    exact h.creation hidle (Turn.creation_moves hp ha)
  | deleteObject _ | pull _ =>
    rw [ht] at hi
    exact hi.elim

omit [DecidableEq ι] in
theorem Guarded.start (h : x.bucket? name = some .deleted → x.Vacant name) : Guarded name t (fun _ => .idle) x where
  held := .start x
  swept i l hi := by cases hi
  sole i j l l' hi := by cases hi
  deleted := h

/-- Requests that delete and create a bucket, and uploads into it, that run beside each other, in whatever order
they make their calls, as long as the bucket is marked as about to be deleted where it may be deleted: a call that
deletes the bucket leaves what is ready as it is, and nothing in the bucket is live once it is deleted. -/
theorem Registry.deleted_vacant {σ : Type} {perform : (c : Call) → σ → Reply c.Answer × σ} (R : Registry T perform)
    (hin : ∀ i, (t i).In name) {s : σ} (hs : R.Sound s)
    (hdeleted : (R.ledger s).bucket? name = some .deleted → (R.ledger s).Vacant name) (schedule : List ι) :
    let z₀ : Scene ι σ Result := { tasks := fun i => (t i).course, store := s }
    let z := Scene.run perform schedule z₀
    Scene.Along perform (fun s c => ∀ b ∈ c.closed?, R.Closable s b) schedule z₀ →
      (∀ i c, t i = .deleteBucket name → (z.tasks i).call? = some c → ∀ k e,
        (R.ledger z.store).object? k = some e → e.status = .ready →
          (R.ledger (perform c z.store).2).object? k = some e) ∧
      ((R.ledger z.store).bucket? name = some .deleted → (R.ledger z.store).Vacant name) := by
  intro z₀ z hok
  obtain ⟨hsound, p, hz, hp⟩ := Scene.run_induction R (fun p x _ => Guarded name t p x)
    (fun hs hok h hp ha => h.step hin hp (fun hc => (hok name hc).mayClose hs) ha) hs
    (Turn.follows_courses t s) (.start hdeleted) hok
  refine ⟨fun i c hi hc k e he hready => ?_, hp.deleted⟩
  have hpermits := hz.permits hc
  rw [hi] at hpermits
  exact hp.leaves_ready (Turn.removal_moves hpermits (R.allows c z.store hsound)) he hready

end Guarding

namespace Sample

/-- A bucket is deleted, and created again, while an object is uploaded into it. -/
def clearance (i : Fin 3) : Turn :=
  [.deleteBucket key.bucket, .upload deposit, .createBucket key.bucket context.site context.now][i]

/-- A bucket is deleted while an object is uploaded into it. -/
def closing (i : Fin 2) : Turn := [.deleteBucket key.bucket, .upload deposit][i]

end Sample

/-- An upload finds the bucket ready, and the bucket is marked before its record is registered. -/
theorem Store.deleted_vacant_refused :
    let z₀ : Scene (Fin 3) Store Result :=
      { tasks := fun i => (Sample.clearance i).course, store := Sample.bucketStore }
    let z := Scene.run perform [1, 0, 0, 0, 1, 2, 2, 0, 0, 0] z₀
    z.Over ∧ ((registry {}).ledger z.store).bucket? Sample.key.bucket = some .deleted ∧
      ((registry {}).ledger z.store).Vacant Sample.key.bucket := by
  have hin : ∀ i, (Sample.clearance i).In Sample.key.bucket
    | 0 | 1 | 2 => rfl
  have hvacant := (registry {}).deleted_vacant (t := Sample.clearance) hin Sample.sound_bucketStore
    (fun h => absurd h (by decide)) [1, 0, 0, 0, 1, 2, 2, 0, 0, 0] (by decide)
  exact ⟨by decide, by decide, hvacant.2 (by decide)⟩

/-- A deletion finds nothing live, and an upload registers its record before the bucket is marked: the upload
goes on, and its object is ready in a bucket that is deleted. -/
theorem Store.deleted_with_ready :
    let z : Scene (Fin 2) Store Result := Scene.run perform [0, 0, 1, 1, 0, 0, 0, 0, 0, 1, 1, 1, 1]
      { tasks := fun i => (Sample.closing i).course, store := Sample.bucketStore }
    z.Over ∧ z.Prompt ∧ ((registry {}).ledger z.store).bucket? Sample.key.bucket = some .deleted ∧
      ∃ e, ((registry {}).ledger z.store).object? Sample.key = some e ∧ e.status = .ready :=
  ⟨by decide, by decide, by decide, _, rfl, by decide⟩

end Depot
