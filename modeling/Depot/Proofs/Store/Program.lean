import Depot.Proofs.Store.Snapshot

/-!
# What programs ensure

A meaning of calls says under which condition something holds of the reply to a call and of what the call
leaves behind; the weakest precondition of a program follows from it. A program ensures a postcondition if
it holds however a store that keeps the contract answers the calls. The laws follow the constructs of
programs and actions, and there is one law for every call that requests make.

## Main results

* `Program.wp_bind`, `Action.wp_bind` — the weakest precondition of one course after another.
* `Contract.ensures_run` — what a program ensures holds of its run on a store that keeps the contract.
-/

namespace Depot

namespace Reply

variable {α : Type}

/-- What an attempt makes of a reply. -/
def attempted : Reply α → Except Trouble (Except StoreError α)
  | .ok a => .ok (.ok a)
  | .failed e => .ok (.error e)
  | .crashed m => .error (.crashed m)

/-- What a call makes of a reply. -/
def called : Reply α → Except Trouble α
  | .ok a => .ok a
  | .failed e => .error (.refused (.internal e.message))
  | .crashed m => .error (.crashed m)

variable (a : α) (e : StoreError) (m : String)

@[simp] theorem attempted_ok : (ok a).attempted = .ok (.ok a) := rfl

@[simp] theorem attempted_failed : (failed e : Reply α).attempted = .ok (.error e) := rfl

@[simp] theorem called_ok : (ok a).called = .ok a := rfl

@[simp] theorem called_failed :
    (failed e : Reply α).called = .error (.refused (.internal e.message)) := rfl

@[simp] theorem called_crashed : (crashed m : Reply α).called = .error (.crashed m) := rfl

end Reply

namespace Program

variable {α β σ : Type}

theorem id_map (t : Program α) : id <$> t = t := by
  induction t with
  | done a => rfl
  | call c next ih => exact congrArg (call c) (funext ih)

theorem bind_assoc {γ : Type} (t : Program α) (f : α → Program β) (g : β → Program γ) :
    t >>= f >>= g = t >>= fun a => f a >>= g := by
  induction t with
  | done a => rfl
  | call c next ih => exact congrArg (call c) (funext ih)

instance : LawfulMonad Program := .mk' _ id_map (fun _ _ => rfl) bind_assoc

theorem run_map (perform : (c : Call) → σ → Reply c.Answer × σ) (f : α → β) (t : Program α) (s : σ) :
    (f <$> t).run perform s = (f (t.run perform s).1, (t.run perform s).2) := by
  induction t generalizing s with
  | done a => rfl
  | call c next ih => exact ih _ _

theorem run_bind (perform : (c : Call) → σ → Reply c.Answer × σ) (t : Program α) (f : α → Program β) (s : σ) :
    (t >>= f).run perform s = (f (t.run perform s).1).run perform (t.run perform s).2 := by
  induction t generalizing s with
  | done a => rfl
  | call c next ih => exact ih _ _

end Program

/-- A meaning of calls: the condition under which `K` holds of the reply to a call and of the state that
the call leaves behind. -/
structure Meaning (S : Type) where
  pre : (c : Call) → (Reply c.Answer → S → Prop) → S → Prop
  mono : ∀ {c : Call} {K L : Reply c.Answer → S → Prop} {s : S}, (∀ r t, K r t → L r t) →
    pre c K s → pre c L s

/-- A call to a store that keeps the contract. -/
def Terms.meaning (T : Terms) : Meaning Snapshot where
  pre c K v := ∀ r w, v.Allows T c r w → K r w
  mono h hpre r w hr := h r w (hpre r w hr)

/-- A call that may come back in any way. -/
def Meaning.any : Meaning Unit where
  pre c K w := ∀ r : Reply c.Answer, K r w
  mono h hpre r := h r _ (hpre r)

/-- A call to what performs it. -/
def Meaning.running {S : Type} (perform : (c : Call) → S → Reply c.Answer × S) : Meaning S where
  pre c K s := K (perform c s).1 (perform c s).2
  mono h := h _ _

theorem Meaning.pre_running {S : Type} {perform : (c : Call) → S → Reply c.Answer × S} {c : Call}
    {K : Reply c.Answer → S → Prop} {s : S} (h : ∀ a t, perform c s = (a, t) → K a t) :
    (running perform).pre c K s := h _ _ rfl

theorem Meaning.pre_running_of_eq {S : Type} {perform : (c : Call) → S → Reply c.Answer × S} {c : Call}
    {K : Reply c.Answer → S → Prop} {s t : S} {a : Reply c.Answer} (h : perform c s = (a, t)) (hK : K a t) :
    (running perform).pre c K s := pre_running fun a' t' h' => by cases h.symm.trans h'; exact hK

namespace Program

variable {α β S : Type} {M : Meaning S} {s : S} {T : Terms} {v : Snapshot}

/-- The weakest precondition: what has to hold so that `Q` holds at the end of a program. -/
def wp (M : Meaning S) (Q : α → S → Prop) : Program α → S → Prop
  | done a, s => Q a s
  | call c next, s => M.pre c (fun r t => (next r).wp M Q t) s

@[simp] theorem wp_pure (Q : α → S → Prop) (a : α) : (pure a : Program α).wp M Q s ↔ Q a s := Iff.rfl

@[simp] theorem wp_done (Q : α → S → Prop) (a : α) : (done a).wp M Q s ↔ Q a s := Iff.rfl

theorem wp_call (Q : α → S → Prop) (c : Call) (next : Reply c.Answer → Program α) :
    (call c next).wp M Q s ↔ M.pre c (fun r t => (next r).wp M Q t) s := Iff.rfl

@[simp] theorem wp_bind (Q : β → S → Prop) (t : Program α) (f : α → Program β) :
    (t >>= f).wp M Q s ↔ t.wp M (fun a t => (f a).wp M Q t) s := by
  induction t generalizing s with
  | done a => exact Iff.rfl
  | call c next ih => exact ⟨M.mono fun r _ => (ih r).mp, M.mono fun r _ => (ih r).mpr⟩

@[simp] theorem wp_map (Q : β → S → Prop) (f : α → β) (t : Program α) :
    (f <$> t).wp M Q s ↔ t.wp M (fun a t => Q (f a) t) s :=
  wp_bind Q t fun a => pure (f a)

theorem wp.mono {P Q : α → S → Prop} {t : Program α} (h : t.wp M P s) (hPQ : ∀ a t, P a t → Q a t) :
    t.wp M Q s := by
  induction t generalizing s with
  | done a => exact hPQ a s h
  | call c next ih => exact M.mono (fun r _ => ih r) h

theorem wp_any_of_forall {Q : α → Unit → Prop} (h : ∀ a w, Q a w) (t : Program α) (w : Unit) : t.wp .any Q w := by
  induction t generalizing w with
  | done a => exact h a w
  | call c next ih => exact fun r => ih r w

/-- What holds at the end of a run. -/
theorem wp_running_iff {perform : (c : Call) → S → Reply c.Answer × S} {Q : α → S → Prop} {t : Program α} :
    t.wp (.running perform) Q s ↔ Q (t.run perform s).1 (t.run perform s).2 := by
  induction t generalizing s with
  | done a => exact Iff.rfl
  | call c next ih => exact ih _

/-- What holds at the end of a program whatever its calls come back with, holds of each of its runs. -/
theorem run_of_wp_any {σ : Type} {Q : α → Prop} {t : Program α} (h : t.wp .any (fun a _ => Q a) ())
    (perform : (c : Call) → σ → Reply c.Answer × σ) (s : σ) : Q (t.run perform s).1 := by
  induction t generalizing s with
  | done a => exact h
  | call c next ih => exact ih _ (h _) _

/-- Whether `Q` holds at the end of a program that begins on a store that holds `v`. -/
def Ensures (T : Terms) (Q : α → Snapshot → Prop) : Program α → Snapshot → Prop
  | done a, v => Q a v
  | call c next, v => ∀ r w, v.Allows T c r w → (next r).Ensures T Q w

theorem ensures_iff_wp {Q : α → Snapshot → Prop} {t : Program α} :
    t.Ensures T Q v ↔ t.wp T.meaning Q v := by
  induction t generalizing v with
  | done a => exact Iff.rfl
  | call c next ih => exact forall_congr' fun r => forall_congr' fun w => imp_congr_right fun _ => ih r

@[simp] theorem ensures_pure (Q : α → Snapshot → Prop) (a : α) :
    (pure a : Program α).Ensures T Q v ↔ Q a v := Iff.rfl

@[simp] theorem ensures_done (Q : α → Snapshot → Prop) (a : α) :
    (done a).Ensures T Q v ↔ Q a v := Iff.rfl

@[simp] theorem ensures_bind (Q : β → Snapshot → Prop) (t : Program α) (f : α → Program β) :
    (t >>= f).Ensures T Q v ↔ t.Ensures T (fun a w => (f a).Ensures T Q w) v := by
  simp only [ensures_iff_wp, wp_bind]

@[simp] theorem ensures_map (Q : β → Snapshot → Prop) (f : α → β) (t : Program α) :
    (f <$> t).Ensures T Q v ↔ t.Ensures T (fun a w => Q (f a) w) v :=
  ensures_bind Q t fun a => pure (f a)

theorem Ensures.mono {P Q : α → Snapshot → Prop} {t : Program α} (h : t.Ensures T P v)
    (hPQ : ∀ a w, P a w → Q a w) : t.Ensures T Q v :=
  ensures_iff_wp.mpr (wp.mono (ensures_iff_wp.mp h) hPQ)

theorem ensures_of_forall {Q : α → Snapshot → Prop} {t : Program α} (h : ∀ a w, Q a w) :
    t.Ensures T Q v := by
  induction t generalizing v with
  | done a => exact h a v
  | call c next ih => exact fun r _ _ => ih r

end Program

/-- What a program ensures holds of its run on a store that keeps the contract. -/
theorem Contract.ensures_run {σ α : Type} {T : Terms}
    {perform : (c : Call) → σ → Reply c.Answer × σ} (C : Contract T perform)
    {Q : α → Snapshot → Prop} {t : Program α} {s : σ} (hs : C.Sound s)
    (h : t.Ensures T Q (C.view s)) :
    C.Sound (t.run perform s).2 ∧ Q (t.run perform s).1 (C.view (t.run perform s).2) := by
  induction t generalizing s with
  | done a => exact ⟨hs, h⟩
  | call c next ih => exact ih _ (C.sound c s hs) (h _ _ (C.allows c s hs))

namespace Action

variable {ρ σ α β S : Type} {M : Meaning S} {s : ρ} {w : S}

theorem start_bind {a : Action ρ α} {f : α → Action ρ β} (s : ρ) :
    (a >>= f).start s = a.start s >>= fun x =>
      match x with
      | (.ok b, t) => (f b).start t
      | (.error e, t) => pure (.error e, t) := by
  change (a s >>= fun x => ExceptT.bindCont f x.1 x.2) = _
  congr 1
  funext x
  obtain ⟨_ | b, t⟩ := x <;> rfl

/-- The weakest precondition of an action. -/
def wp (M : Meaning S) (Q : Except Trouble α → ρ → S → Prop) (a : Action ρ α) (s : ρ) (w : S) : Prop :=
  Program.wp M (fun x w => Q x.1 x.2 w) (a s) w

section Laws

variable {Q : Except Trouble α → ρ → S → Prop}

theorem wp.mono {P : Except Trouble α → ρ → S → Prop} {a : Action ρ α} (h : a.wp M P s w)
    (hPQ : ∀ r t w, P r t w → Q r t w) : a.wp M Q s w :=
  Program.wp.mono h fun x w => hPQ x.1 x.2 w

theorem wp_any_of_forall {Q : Except Trouble α → ρ → Unit → Prop} (h : ∀ r t w, Q r t w) (a : Action ρ α) (s : ρ)
    (w : Unit) : a.wp .any Q s w :=
  Program.wp_any_of_forall (fun (x : Except Trouble α × ρ) w => h x.1 x.2 w) (a s) w

@[simp] theorem wp_start {a : Action ρ α} {R : Except Trouble α × ρ → S → Prop} :
    (a.start s).wp M R w ↔ a.wp M (fun r t w => R (r, t) w) s w := Iff.rfl

@[simp] theorem wp_pure (a : α) : (pure a : Action ρ α).wp M Q s w ↔ Q (.ok a) s w := Iff.rfl

@[simp] theorem wp_refuse (e : TransferError) :
    (refuse e : Action ρ α).wp M Q s w ↔ Q (.error (.refused e)) s w := Iff.rfl

@[simp] theorem wp_crash (m : String) :
    (crash m : Action ρ α).wp M Q s w ↔ Q (.error (.crashed m)) s w := Iff.rfl

@[simp] theorem wp_ofExcept_ok (a : α) :
    (ofExcept (.ok a) : Action ρ α).wp M Q s w ↔ Q (.ok a) s w := Iff.rfl

@[simp] theorem wp_ofExcept_error (e : TransferError) :
    (ofExcept (.error e) : Action ρ α).wp M Q s w ↔ Q (.error (.refused e)) s w := Iff.rfl

@[simp] theorem wp_get {Q : Except Trouble ρ → ρ → S → Prop} :
    (get : Action ρ ρ).wp M Q s w ↔ Q (.ok s) s w := Iff.rfl

@[simp] theorem wp_set {Q : Except Trouble PUnit → ρ → S → Prop} (t : ρ) :
    (set t : Action ρ PUnit).wp M Q s w ↔ Q (.ok ⟨⟩) t w := Iff.rfl

@[simp] theorem wp_modify {Q : Except Trouble PUnit → ρ → S → Prop} (f : ρ → ρ) :
    (modify f : Action ρ PUnit).wp M Q s w ↔ Q (.ok ⟨⟩) (f s) w := Iff.rfl

@[simp] theorem wp_ofProgram (t : Program α) :
    (ofProgram t : Action ρ α).wp M Q s w ↔ t.wp M (fun a w => Q (.ok a) s w) w := by
  have hrun : (ofProgram t : Action ρ α) s =
      (t >>= fun a => pure (a, s)) >>= fun x => pure (.ok x.1, x.2) := rfl
  simp only [wp, hrun, Program.wp_bind, Program.wp_pure]

@[simp] theorem wp_bind {Q : Except Trouble β → ρ → S → Prop} (a : Action ρ α) (f : α → Action ρ β) :
    (a >>= f).wp M Q s w ↔ a.wp M (fun r t w =>
      match r with
      | .ok x => (f x).wp M Q t w
      | .error e => Q (.error e) t w) s w := by
  rw [wp, show (a >>= f) s = _ from start_bind s, Program.wp_bind, wp]
  refine iff_of_eq (congrArg (fun P => Program.wp M P (a s) w) ?_)
  funext x w
  obtain ⟨_ | b, t⟩ := x <;> rfl

@[simp] theorem wp_map {Q : Except Trouble β → ρ → S → Prop} (f : α → β) (a : Action ρ α) :
    (f <$> a).wp M Q s w ↔ a.wp M (fun r t w =>
      match r with
      | .ok x => Q (.ok (f x)) t w
      | .error e => Q (.error e) t w) s w := by
  rw [map_eq_pure_bind, wp_bind]
  rfl

@[simp] theorem wp_discard {Q : Except Trouble PUnit → ρ → S → Prop} (a : Action ρ α) :
    (discard a : Action ρ PUnit).wp M Q s w ↔ a.wp M (fun r t w => Q (r.map fun _ => ⟨⟩) t w) s w := by
  have hrun : (discard a : Action ρ PUnit) s = a s >>= fun x => pure (x.1.map fun _ => ⟨⟩, x.2) := by
    change (a s >>= fun x => _) = _
    congr 1
    funext x
    obtain ⟨_ | b, t⟩ := x <;> rfl
  simp only [wp, hrun, Program.wp_bind, Program.wp_pure]

@[simp] theorem wp_zoom {Q : Except Trouble α → σ → S → Prop} (get : σ → ρ) (put : ρ → σ → σ)
    (a : Action ρ α) (s : σ) :
    (zoom get put a).wp M Q s w ↔ a.wp M (fun r t w => Q r (put t s) w) (get s) w := by
  have hrun : zoom get put a s = a (get s) >>= fun x => pure (x.1, put x.2 s) := rfl
  simp only [wp, hrun, Program.wp_bind, Program.wp_pure]

@[simp] theorem wp_attempt (c : Call) {Q : Except Trouble (Except StoreError c.Answer) → ρ → S → Prop} :
    wp (α := no_index (Except StoreError c.Answer)) M Q (attempt c) s w ↔
      M.pre c (fun r w => Q r.attempted s w) w := by
  simp only [attempt, wp_bind, wp_ofProgram, Program.ofCall, Program.wp_call]
  constructor <;>
    · refine M.mono fun r w h => ?_
      cases r <;> exact h

@[simp] theorem wp_call (c : Call) {Q : Except Trouble c.Answer → ρ → S → Prop} :
    wp (α := no_index c.Answer) M Q (call c) s w ↔ M.pre c (fun r w => Q r.called s w) w := by
  simp only [call, wp_bind, wp_attempt]
  constructor <;>
    · refine M.mono fun r w h => ?_
      cases r <;> exact h

/-! ### Calls that answer with a unit -/

-- the answers of these calls are literally units, which the general law does not see
@[simp] theorem wp_setBucketStatus {Q : Except Trouble Unit → ρ → S → Prop} (name : String) (t : Status) :
    wp M Q (call (.setBucketStatus name t)) s w ↔
      M.pre (.setBucketStatus name t) (fun (a : Reply Unit) w => Q a.called s w) w :=
  wp_call (.setBucketStatus name t)

@[simp] theorem wp_updateObject {Q : Except Trouble Unit → ρ → S → Prop} (r : ObjectRecord) :
    wp M Q (call (.updateObject r)) s w ↔
      M.pre (.updateObject r) (fun (a : Reply Unit) w => Q a.called s w) w :=
  wp_call (.updateObject r)

@[simp] theorem wp_makeContainer {Q : Except Trouble Unit → ρ → S → Prop} (bucket : String) :
    wp M Q (call (.makeContainer bucket)) s w ↔
      M.pre (.makeContainer bucket) (fun (a : Reply Unit) w => Q a.called s w) w :=
  wp_call (.makeContainer bucket)

end Laws

/-! ## On a store that keeps the contract -/

section Ensures

variable {T : Terms} {v : Snapshot}

/-- Whether `Q` holds at the end of an action. -/
def Ensures (T : Terms) (Q : Except Trouble α → ρ → Snapshot → Prop) (a : Action ρ α) (s : ρ)
    (v : Snapshot) : Prop :=
  Program.Ensures T (fun x w => Q x.1 x.2 w) (a s) v

variable {Q : Except Trouble α → ρ → Snapshot → Prop}

theorem ensures_iff_wp {a : Action ρ α} : a.Ensures T Q s v ↔ a.wp T.meaning Q s v :=
  Program.ensures_iff_wp

theorem Ensures.mono {P : Except Trouble α → ρ → Snapshot → Prop} {a : Action ρ α}
    (h : a.Ensures T P s v) (hPQ : ∀ r t w, P r t w → Q r t w) : a.Ensures T Q s v :=
  Program.Ensures.mono h fun x w => hPQ x.1 x.2 w

@[simp] theorem ensures_start {a : Action ρ α} {R : Except Trouble α × ρ → Snapshot → Prop} :
    (a.start s).Ensures T R v ↔ a.Ensures T (fun r t w => R (r, t) w) s v := Iff.rfl

@[simp] theorem ensures_pure (a : α) :
    (pure a : Action ρ α).Ensures T Q s v ↔ Q (.ok a) s v := Iff.rfl

@[simp] theorem ensures_refuse (e : TransferError) :
    (refuse e : Action ρ α).Ensures T Q s v ↔ Q (.error (.refused e)) s v := Iff.rfl

@[simp] theorem ensures_crash (m : String) :
    (crash m : Action ρ α).Ensures T Q s v ↔ Q (.error (.crashed m)) s v := Iff.rfl

@[simp] theorem ensures_ofExcept_ok (a : α) :
    (ofExcept (.ok a) : Action ρ α).Ensures T Q s v ↔ Q (.ok a) s v := Iff.rfl

@[simp] theorem ensures_ofExcept_error (e : TransferError) :
    (ofExcept (.error e) : Action ρ α).Ensures T Q s v ↔ Q (.error (.refused e)) s v := Iff.rfl

@[simp] theorem ensures_get {Q : Except Trouble ρ → ρ → Snapshot → Prop} :
    (get : Action ρ ρ).Ensures T Q s v ↔ Q (.ok s) s v := Iff.rfl

@[simp] theorem ensures_set {Q : Except Trouble PUnit → ρ → Snapshot → Prop} (t : ρ) :
    (set t : Action ρ PUnit).Ensures T Q s v ↔ Q (.ok ⟨⟩) t v := Iff.rfl

@[simp] theorem ensures_modify {Q : Except Trouble PUnit → ρ → Snapshot → Prop} (f : ρ → ρ) :
    (modify f : Action ρ PUnit).Ensures T Q s v ↔ Q (.ok ⟨⟩) (f s) v := Iff.rfl

@[simp] theorem ensures_ofProgram (t : Program α) :
    (ofProgram t : Action ρ α).Ensures T Q s v ↔ t.Ensures T (fun a w => Q (.ok a) s w) v := by
  rw [ensures_iff_wp, wp_ofProgram, Program.ensures_iff_wp]

@[simp] theorem ensures_bind {Q : Except Trouble β → ρ → Snapshot → Prop} (a : Action ρ α)
    (f : α → Action ρ β) :
    (a >>= f).Ensures T Q s v ↔ a.Ensures T (fun r t w =>
      match r with
      | .ok x => (f x).Ensures T Q t w
      | .error e => Q (.error e) t w) s v := by
  simp only [ensures_iff_wp, wp_bind]

@[simp] theorem ensures_map {Q : Except Trouble β → ρ → Snapshot → Prop} (f : α → β) (a : Action ρ α) :
    (f <$> a).Ensures T Q s v ↔ a.Ensures T (fun r t w =>
      match r with
      | .ok x => Q (.ok (f x)) t w
      | .error e => Q (.error e) t w) s v := by
  simp only [ensures_iff_wp, wp_map]

@[simp] theorem ensures_discard {Q : Except Trouble PUnit → ρ → Snapshot → Prop} (a : Action ρ α) :
    (discard a : Action ρ PUnit).Ensures T Q s v ↔
      a.Ensures T (fun r t w => Q (r.map fun _ => ⟨⟩) t w) s v := by
  simp only [ensures_iff_wp, wp_discard]

@[simp] theorem ensures_zoom {Q : Except Trouble α → σ → Snapshot → Prop} (get : σ → ρ)
    (put : ρ → σ → σ) (a : Action ρ α) (s : σ) :
    (zoom get put a).Ensures T Q s v ↔
      a.Ensures T (fun r t w => Q r (put t s) w) (get s) v := by
  simp only [ensures_iff_wp, wp_zoom]

@[simp] theorem ensures_attempt (c : Call) {Q : Except Trouble (Except StoreError c.Answer) → ρ →
      Snapshot → Prop} :
    Ensures (α := no_index (Except StoreError c.Answer)) T Q (attempt c) s v ↔
      ∀ r w, v.Allows T c r w → Q r.attempted s w :=
  ensures_iff_wp.trans (wp_attempt c)

@[simp] theorem ensures_call (c : Call) {Q : Except Trouble c.Answer → ρ → Snapshot → Prop} :
    Ensures (α := no_index c.Answer) T Q (call c) s v ↔
      ∀ r w, v.Allows T c r w → Q r.called s w :=
  ensures_iff_wp.trans (wp_call c)

section Unit

variable {Q : Except Trouble Unit → ρ → Snapshot → Prop}

@[simp] theorem ensures_setBucketStatus (name : String) (t : Status) :
    Ensures T Q (call (.setBucketStatus name t)) s v ↔
      ∀ (a : Reply Unit) w, v.Allows T (.setBucketStatus name t) a w → Q a.called s w :=
  ensures_call (.setBucketStatus name t)

@[simp] theorem ensures_updateObject (r : ObjectRecord) :
    Ensures T Q (call (.updateObject r)) s v ↔
      ∀ (a : Reply Unit) w, v.Allows T (.updateObject r) a w → Q a.called s w :=
  ensures_call (.updateObject r)

@[simp] theorem ensures_makeContainer (bucket : String) :
    Ensures T Q (call (.makeContainer bucket)) s v ↔
      ∀ (a : Reply Unit) w, v.Allows T (.makeContainer bucket) a w → Q a.called s w :=
  ensures_call (.makeContainer bucket)

end Unit

end Ensures

end Action

end Depot
