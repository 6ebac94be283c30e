import Depot.Proofs.Concurrent.Moves
import Depot.Proofs.Refinement

/-!
# Uploads of one name

Uploads of one name that run beside each other, and nothing else that concerns the name. The catalog admits
one of them. The others are told that the name is taken: they read nothing, store nothing, and leave the
record to the one that was admitted.

## Main results

* `Decided.step` — what a call preserves once an upload was admitted.
* `Registry.uploads_exclude` — what is left when all of them have come to their ends.
-/

namespace Depot

open ObjectResource (Written State uploading)

namespace Made

variable {ι : Type}

/-- Whether a call has registered a record. -/
def admits : Made ι → Bool
  | ⟨_, .insertObject _, .ok none⟩ => true
  | _ => false

/-- Whether a call has left everything as it is, and has not concerned the storage. -/
def Stays : Made ι → Prop
  | ⟨_, .getBucket _, _⟩ => True
  | ⟨_, .insertObject _, .ok none⟩ => False
  | ⟨_, .insertObject _, _⟩ => True
  | _ => False

theorem Stays.admits {m : Made ι} (h : m.Stays) : m.admits = false := by
  obtain ⟨i, c, a⟩ := m
  cases c with
  | insertObject r => rcases a with (_ | t) | e | m <;> first | exact h.elim | rfl
  | _ => rfl

/-- A call that stays leaves a ledger as it is. -/
theorem Stays.eq {i : ι} {T : Terms} {x y : Ledger} {c : Call} {a : Reply c.Answer} (h : Made.Stays ⟨i, c, a⟩)
    (ha : x.Allows T c a y) : y = x := by
  cases c with
  | getBucket name =>
    obtain ⟨b, rfl, -, hy⟩ := ha.allows
    exact ha.eq hy rfl
  | insertObject r =>
    rcases Ledger.allows_insertObject ha with ⟨-, -, -, rfl, -⟩ | ⟨t, -, -, rfl, hy⟩ | ⟨e, -, rfl, hy⟩
    · exact h.elim
    · exact hy
    · exact hy
  | _ => exact h.elim

/-- A call that registers nothing adds nothing to what was registered. -/
theorem filter_admits_append {log : List (Made ι)} {m : Made ι} (h : m.admits = false) :
    (log ++ [m]).filter admits = log.filter admits := by
  rw [List.filter_append, List.filter_cons_of_neg (by simp [h]), List.filter_nil, List.append_nil]

theorem filter_admits_of_stays {log : List (Made ι)} (h : ∀ m ∈ log, m.Stays) : log.filter admits = [] := by
  rw [List.filter_eq_nil_iff]
  intro m hm
  rw [(h m hm).admits]
  exact Bool.false_ne_true

/-- One more call leaves the calls of all but `w` as they have to be. -/
theorem stays_append {w : ι} {log : List (Made ι)} {m : Made ι} (h : ∀ n ∈ log, n.task ≠ w → n.Stays)
    (hm : m.task ≠ w → m.Stays) : ∀ n ∈ log ++ [m], n.task ≠ w → n.Stays :=
  List.forall_mem_append.mpr ⟨h, List.forall_mem_singleton.mpr hm⟩

end Made

namespace Deposit

variable {ι : Type} {d : Deposit} {p q : Phase} {c : Call} {a : Reply c.Answer} {i : ι} {T : Terms}
  {x y : Ledger}

/-! ## Before the admission -/

/-- An upload of a name in a ready bucket waits, is told that the name is taken, or is admitted. -/
theorem Moves.of_idle (h : d.Moves T x .idle q y) (hT : T.Fits 0)
    (hready : x.bucket? d.key.bucket = some .ready) :
    (q = .idle ∧ y = x) ∨
    (∃ t, q = .refused (some t) ∧ y = x ∧ (x.object? d.key).map (·.status) = some t ∧ t.isReplaceable = false) ∨
    (∃ r, q = .writing none ∧ y = x.record r ∧ r.key = d.key ∧ r.id = d.context.recordId ∧ r.entry = uploading ∧
      (x.object? d.key).all (·.status.isReplaceable) = true) := by
  cases h with
  | waits _ hq hy => exact .inl ⟨hq, hy⟩
  | barred _ _ _ hx => exact absurd ⟨hready, hT⟩ hx
  | occupied t _ hq hy hx ht => exact .inr (.inl ⟨t, hq, hy, hx, ht⟩)
  | admitted r _ hq hy hr hid hentry hfree => exact .inr (.inr ⟨r, hq, hy, hr, hid, hentry, hfree⟩)
  | puts _ hp => cases hp
  | completes _ _ hp => cases hp
  | fails _ hp => simp at hp
  | gives _ hp => simp at hp
  | strays _ hp => simp at hp

/-- An upload whose name is taken is not admitted. -/
theorem Moves.of_taken (h : d.Moves T x .idle q y) (hT : T.Fits 0)
    (hready : x.bucket? d.key.bucket = some .ready)
    (htaken : ∃ e, x.object? d.key = some e ∧ e.status.isReplaceable = false) :
    y = x ∧ (q = .idle ∨ ∃ t, q = .refused (some t)) := by
  rcases h.of_idle hT hready with ⟨hq, hy⟩ | ⟨t, hq, hy, -⟩ | ⟨r, -, -, -, -, -, hfree⟩
  · exact ⟨hy, .inl hq⟩
  · exact ⟨hy, .inr ⟨t, hq⟩⟩
  · obtain ⟨e, he, hkept⟩ := htaken
    rw [he, Option.all_some, hkept] at hfree
    cases hfree

/-- The call that admits an upload registers a record. -/
theorem admits_of_next (hp : d.Permits .idle c) (ha : next .idle c a = .writing none) :
    Made.admits ⟨i, c, a⟩ = true := by
  cases c with
  | getBucket name =>
    simp only [next] at ha
    split at ha <;> cases ha
  | insertObject r => rcases a with (_ | t) | e | m <;> first | rfl | cases ha
  | _ => exact hp.elim

/-- An upload registers no other record. -/
theorem not_admits (hp : d.Permits p c) (hidle : p ≠ .idle) : Made.admits ⟨i, c, a⟩ = false := by
  cases c with
  | insertObject r =>
    cases p with
    | idle => exact absurd rfl hidle
    | writing b => cases b <;> exact hp.elim
    | _ => exact hp.elim
  | _ => rfl

/-- Up to its admission, an upload leaves everything as it is. -/
theorem stays_of_permits (hp : d.Permits .idle c) (ha : next .idle c a ≠ .writing none) :
    Made.Stays ⟨i, c, a⟩ := by
  cases c with
  | getBucket name => trivial
  | insertObject r =>
    rcases a with (_ | t) | e | m
    · exact absurd rfl ha
    · trivial
    · trivial
    · trivial
  | _ => exact hp.elim

/-! ## The upload that was admitted -/

/-- What a store holds of an upload that was admitted, as far as it got. -/
def Carried (d : Deposit) (y : Ledger) : Phase → Prop
  | .writing none => y.object? d.key = some uploading
  | .writing (some plain) =>
    y.object? d.key = some uploading ∧ y.bytes? d.key.path = some plain ∧ d.stages.Plain d.body.bytes plain
  | .ready plain =>
    y.object? d.key = some (d.entry plain) ∧ y.bytes? d.key.path = some plain ∧ d.stages.Plain d.body.bytes plain
  | .failed | .stray => ∃ e, y.object? d.key = some e ∧ e.status = .uploadFailed
  | _ => False

/-- A name that was taken is not free. -/
theorem Carried.not_replaceable (h : d.Carried y p) :
    ∃ e, y.object? d.key = some e ∧ e.status.isReplaceable = false := by
  cases p with
  | writing b =>
    cases b with
    | none => exact ⟨_, h, rfl⟩
    | some plain => exact ⟨_, h.1, rfl⟩
  | ready plain => exact ⟨_, h.1, rfl⟩
  | failed | stray =>
    obtain ⟨e, he, hstatus⟩ := h
    exact ⟨e, he, by rw [hstatus]; rfl⟩
  | _ => exact h.elim

/-- What a call of the upload that was admitted makes of the store. -/
theorem Carried.step (h : d.Carried x p) (hT : d.Fits T) (hid : x.id? d.key = some d.context.recordId)
    (hmove : d.Moves T x p q y) : d.Carried y q ∧ y.id? d.key = some d.context.recordId := by
  cases hmove with
  | waits _ hq hy =>
    subst hq hy
    exact ⟨h, hid⟩
  | barred hp => exact (hp ▸ h : d.Carried x .idle).elim
  | occupied t hp => exact (hp ▸ h : d.Carried x .idle).elim
  | admitted r hp => exact (hp ▸ h : d.Carried x .idle).elim
  | puts plain hp hq hy hplain =>
    subst hp hq hy
    exact ⟨⟨h, by simp, hplain⟩, hid⟩
  | completes r plain hp hq hy hr hrid hentry =>
    subst hp hq hy
    exact ⟨⟨by simp [hr, hentry], h.2⟩, by simp [hr, hrid]⟩
  | fails r hp hq hy hr hrid hstatus =>
    subst hq hy
    exact ⟨⟨r.entry, by simp [hr], hstatus⟩, by simp [hr, hrid]⟩
  | gives n hp hq hy hx =>
    exfalso
    rcases hp with ⟨rfl, rfl⟩ | ⟨plain, rfl, rfl | rfl⟩
    · exact hx ⟨hT.1, by simp [show x.object? d.key = some uploading from h]⟩
    · exact hx ⟨hT.1, by simp [h.1]⟩
    · exact hx ⟨hT.2 plain h.2.2, by simp [h.1]⟩
  | strays bytes hp hq hy =>
    subst hq hy
    rcases hp with rfl | rfl | rfl
    · exact ⟨h, hid⟩
    · exact ⟨h, hid⟩
    · exact h.elim

end Deposit

/-! ## All of them -/

section Uploads

variable {ι : Type} [DecidableEq ι] {T : Terms} {d : ι → Deposit} {k : Key} {p : ι → Phase} {x y : Ledger}
  {log : List (Made ι)} {i w : ι} {c : Call} {a : Reply c.Answer}

/-- What holds before an upload is admitted. -/
structure Undecided (k : Key) (p : ι → Phase) (x : Ledger) (log : List (Made ι)) : Prop where
  idle : ∀ i, p i = .idle
  free : (x.object? k).all (·.status.isReplaceable) = true
  stays : ∀ m ∈ log, m.Stays

/-- What holds once `w` was admitted. -/
structure Decided (d : ι → Deposit) (p : ι → Phase) (x : Ledger) (log : List (Made ι)) (w : ι) : Prop where
  carried : (d w).Carried x (p w)
  id : x.id? (d w).key = some (d w).context.recordId
  others : ∀ i, i ≠ w → p i = .idle ∨ ∃ t, p i = .refused (some t)
  admitted : ∃ m, log.filter Made.admits = [m] ∧ m.task = w
  stays : ∀ m ∈ log, m.task ≠ w → m.Stays

/-- The first registration decides. -/
theorem Undecided.step (h : Undecided k p x log) (hkey : ∀ i, (d i).key = k) (hT : T.Fits 0)
    (hready : x.bucket? k.bucket = some .ready) (hp : (d i).Permits (p i) c)
    (hmove : (d i).Moves T x (p i) (Deposit.next (p i) c a) y) :
    Undecided k (Function.update p i (Deposit.next (p i) c a)) y (log ++ [⟨i, c, a⟩]) ∨
      Decided d (Function.update p i (Deposit.next (p i) c a)) y (log ++ [⟨i, c, a⟩]) i := by
  obtain rfl := hkey i
  rw [h.idle i] at hp hmove ⊢
  rcases hmove.of_idle hT hready with ⟨hq, rfl⟩ | ⟨t, -, -, hx, ht⟩ | ⟨r, hq, rfl, hr, hid, hentry, -⟩
  · have hstays : Made.Stays ⟨i, c, a⟩ := Deposit.stays_of_permits hp (by simp [hq])
    refine .inl ⟨fun j => ?_, h.free, List.forall_mem_append.mpr ⟨h.stays, List.forall_mem_singleton.mpr hstays⟩⟩
    by_cases hj : j = i
    · simp [hj, hq]
    · simp [hj, h.idle j]
  · -- the name is free
    obtain ⟨e, he, rfl⟩ := Option.map_eq_some_iff.mp hx
    have hfree := h.free
    rw [he, Option.all_some, ht] at hfree
    cases hfree
  · refine .inr ⟨?_, by simp [hr, hid], fun j hj => .inl (by simp [hj, h.idle j]), ⟨⟨i, c, a⟩, ?_, rfl⟩,
      Made.stays_append (fun m hm _ => h.stays m hm) (absurd rfl)⟩
    · rw [hq, Function.update_self]
      show (x.record r).object? (d i).key = some uploading
      simp [hr, hentry]
    · rw [List.filter_append, Made.filter_admits_of_stays h.stays, List.nil_append,
        List.filter_cons_of_pos (Deposit.admits_of_next hp hq), List.filter_nil]

/-- The upload that was admitted goes on. -/
theorem Decided.own (h : Decided d p x log w) (hT : (d w).Fits T) (hp : (d w).Permits (p w) c)
    (hmove : (d w).Moves T x (p w) (Deposit.next (p w) c a) y) :
    Decided d (Function.update p w (Deposit.next (p w) c a)) y (log ++ [⟨w, c, a⟩]) w := by
  obtain ⟨m, hm, hmw⟩ := h.admitted
  obtain ⟨hcarried, hid⟩ := h.carried.step hT h.id hmove
  have hidle : p w ≠ .idle := fun hidle => (hidle ▸ h.carried : (d w).Carried x .idle).elim
  refine ⟨by simpa using hcarried, hid, fun j hj => by simpa [hj] using h.others j hj, ⟨m, ?_, hmw⟩,
    Made.stays_append h.stays (absurd rfl)⟩
  rw [Made.filter_admits_append (Deposit.not_admits hp hidle), hm]

/-- Another one has not been admitted, and is told that the name is taken. -/
theorem Decided.rival (h : Decided d p x log w) (hi : i ≠ w) (hkey : (d i).key = (d w).key) (hT : T.Fits 0)
    (hready : x.bucket? (d i).key.bucket = some .ready) (hp : (d i).Permits (p i) c)
    (hmove : (d i).Moves T x (p i) (Deposit.next (p i) c a) y) :
    Decided d (Function.update p i (Deposit.next (p i) c a)) y (log ++ [⟨i, c, a⟩]) w := by
  obtain ⟨m, hm, hmw⟩ := h.admitted
  rcases h.others i hi with hidle | ⟨t, ht⟩
  · rw [hidle] at hp hmove ⊢
    obtain ⟨rfl, hq⟩ := hmove.of_taken hT hready (hkey ▸ h.carried.not_replaceable)
    have hnone : Deposit.next .idle c a ≠ .writing none := by
      rcases hq with hq | ⟨t, hq⟩ <;> simp [hq]
    have hstays : Made.Stays ⟨i, c, a⟩ := Deposit.stays_of_permits hp hnone
    refine ⟨by simpa [Ne.symm hi] using h.carried, h.id, fun j hj => ?_, ⟨m, ?_, hmw⟩,
      Made.stays_append h.stays fun _ => hstays⟩
    · by_cases hji : j = i
      · simpa [hji] using hq
      · simpa [hji] using h.others j hj
    · rw [Made.filter_admits_append hstays.admits, hm]
  · -- it makes no calls any more
    rw [ht] at hp
    exact hp.elim

/-- Once one was admitted, the others are told so. -/
theorem Decided.step (h : Decided d p x log w) (hkey : ∀ i, (d i).key = k) (hT : (d w).Fits T)
    (hready : x.bucket? k.bucket = some .ready) (hp : (d i).Permits (p i) c)
    (hmove : (d i).Moves T x (p i) (Deposit.next (p i) c a) y) :
    Decided d (Function.update p i (Deposit.next (p i) c a)) y (log ++ [⟨i, c, a⟩]) w := by
  by_cases hi : i = w
  · subst hi
    exact h.own hT hp hmove
  · exact h.rival hi ((hkey i).trans (hkey w).symm) hT.1 (hkey i ▸ hready) hp hmove

/-- What every call preserves: the bucket is ready, and one upload was admitted, or none was yet. -/
structure Racing (d : ι → Deposit) (k : Key) (p : ι → Phase) (x : Ledger) (log : List (Made ι)) : Prop where
  ready : x.bucket? k.bucket = some .ready
  decided : Undecided k p x log ∨ ∃ w, Decided d p x log w

theorem Racing.step (h : Racing d k p x log) (hkey : ∀ i, (d i).key = k) (hfits : ∀ i, (d i).Fits T)
    (hp : (d i).Permits (p i) c) (ha : x.Allows T c a y) :
    Racing d k (Function.update p i (Deposit.next (p i) c a)) y (log ++ [⟨i, c, a⟩]) := by
  have hmove := Deposit.moves hp ha
  refine ⟨hmove.bucket? ▸ h.ready, ?_⟩
  rcases h.decided with hundecided | ⟨w, hdecided⟩
  · exact (hundecided.step hkey (hfits i).1 h.ready hp hmove).imp_right fun h => ⟨i, h⟩
  · exact .inr ⟨w, hdecided.step hkey (hfits w) h.ready hp hmove⟩

omit [DecidableEq ι] in
theorem Racing.start (hready : x.bucket? k.bucket = some .ready)
    (hfree : (x.object? k).all (·.status.isReplaceable) = true) : Racing d k (fun _ => .idle) x [] where
  ready := hready
  decided := .inl ⟨fun _ => rfl, hfree, fun _ hm => (by cases hm)⟩

/-- What is left of uploads of one name, one of which was admitted. -/
structure Exclusive {σ : Type} (d : ι → Deposit) (z : Scene ι σ (Ending × Upload State Written)) (x : Ledger)
    (w : ι) : Prop where
  /-- It has registered its record, and no other was registered. -/
  admitted : ∃ m, z.log.filter Made.admits = [m] ∧ m.task = w
  /-- The others have read nothing of what was to be uploaded, and were told that the name is taken. -/
  refused : ∀ i, i ≠ w → ∃ e u a, z.tasks i = .done (e, u) ∧ e.answer? = some a ∧
    (a.status = 406 ∨ a.status = 409) ∧ u.stream.started = false ∧ u.stream.pipeline.source = (d i).body
  /-- The others have not concerned the storage, and have not changed the record. -/
  stays : ∀ m ∈ z.log, m.task ≠ w → m.Stays
  id : x.id? (d w).key = some (d w).context.recordId
  /-- The object is ready as it was uploaded if that was the answer, and failed otherwise. -/
  ended : ∃ e u, z.tasks w = .done (e, u) ∧
    ((e.Created ∧ ∃ plain, (d w).Brings plain ∧ x.object? (d w).key = some ((d w).entry plain) ∧
        x.bytes? (d w).key.path = some plain) ∨
      ¬ e.Created ∧ ∃ entry, x.object? (d w).key = some entry ∧ entry.status = .uploadFailed)

omit [DecidableEq ι] in
/-- When all uploads of one name have come to their ends, one of them was admitted. -/
theorem Decided.exclusive {σ : Type} {z : Scene ι σ (Ending × Upload State Written)} (h : Decided d p x z.log w)
    (hz : z.Follows (fun i => (d i).protocol) (fun i => (d i).Ends) p) (hover : z.Over) : Exclusive d z x w where
  admitted := h.admitted
  stays := h.stays
  id := h.id
  refused i hi := by
    obtain ⟨⟨e, u⟩, hdone, hresult⟩ := hover.done i
    have hends : (d i).Ends (e, u) (p i) := hz.of_done hresult
    rcases h.others i hi with hp | ⟨t, hp⟩
    · rw [hp] at hends
      exact hends.elim
    · rw [hp] at hends
      obtain ⟨⟨a, ha, hstatus⟩, hunread⟩ := hends
      refine ⟨e, u, a, hdone, ha, ?_, hunread⟩
      rw [hstatus]
      split
      · exact .inl rfl
      · exact .inr rfl
  ended := by
    obtain ⟨⟨e, u⟩, hdone, hresult⟩ := hover.done w
    have hends : (d w).Ends (e, u) (p w) := hz.of_done hresult
    have hcarried := h.carried
    refine ⟨e, u, hdone, ?_⟩
    cases hp : p w with
    | ready plain =>
      rw [hp] at hends hcarried
      obtain ⟨hentry, hbytes, hplain⟩ := hcarried
      exact .inl ⟨hends, plain, ((d w).brings_iff plain).mpr hplain, hentry, hbytes⟩
    | failed =>
      rw [hp] at hends hcarried
      exact .inr ⟨hends, hcarried⟩
    | stray =>
      rw [hp] at hends hcarried
      exact .inr ⟨hends.1, hcarried⟩
    | writing b =>
      rw [hp] at hends
      exact hends.elim
    | _ =>
      rw [hp] at hcarried
      exact hcarried.elim

/-- Uploads of one name that run beside each other, in whatever order they make their calls: one of them is
admitted, and the others leave it alone. -/
theorem Registry.uploads_exclude {σ : Type} {perform : (c : Call) → σ → Reply c.Answer × σ} (R : Registry T perform)
    [Nonempty ι] (hkey : ∀ i, (d i).key = k) (hfits : ∀ i, (d i).Fits T) {s : σ} (hs : R.Sound s)
    (hready : (R.ledger s).bucket? k.bucket = some .ready)
    (hfree : ((R.ledger s).object? k).all (·.status.isReplaceable) = true) (schedule : List ι) :
    let z := Scene.run perform schedule { tasks := fun i => (d i).whole, store := s }
    z.Over → ∃ w, Exclusive d z (R.ledger z.store) w := by
  intro z hover
  let z₀ : Scene ι σ (Ending × Upload State Written) := { tasks := fun i => (d i).whole, store := s }
  have hstart : z₀.Follows (fun i => (d i).protocol) (fun i => (d i).Ends) fun _ => .idle :=
    fun i => (d i).follows_whole
  obtain ⟨-, p, hz, hp⟩ := Scene.run_induction R (Racing d k) (fun _ _ h hp ha => h.step hkey hfits hp ha) hs hstart
    (.start hready hfree) (Scene.along_true perform schedule z₀)
  rcases hp.decided with hp | ⟨w, hp⟩
  · obtain ⟨i⟩ := ‹Nonempty ι›
    obtain ⟨r, -, hresult⟩ := hover.done i
    have hends : (d i).Ends r (p i) := hz.of_done hresult
    rw [hp.idle i] at hends
    exact hends.elim
  · exact ⟨w, hp.exclusive hz hover⟩

end Uploads

namespace Sample

/-- A store with a bucket and nothing in it. -/
def bucketStore : Store where
  catalog := .memory { buckets := [(key.bucket, { name := key.bucket })] }
  storage := .memory { limit := 10 }

theorem sound_bucketStore : bucketStore.Sound {} := ⟨⟨fun _ h => (by cases h), fun _ => trivial⟩, _, rfl⟩

/-- Two uploads of one name. -/
def rivals (i : Fin 2) : Deposit := { deposit with context := { context with recordId := ["a1", "b2"][i] } }

end Sample

/-- Two uploads find that the bucket is ready before either of them registers its record. -/
theorem Store.uploads_exclude_rivals :
    let z := Scene.run perform [0, 1, 1, 0, 1, 1, 1, 1]
      { tasks := fun i => (Sample.rivals i).whole, store := Sample.bucketStore }
    z.Over ∧ ∃ w, Exclusive Sample.rivals z ((registry {}).ledger z.store) w := by
  have hfits : ∀ i, (Sample.rivals i).Fits {} := fun _ => ⟨trivial, fun _ _ => trivial⟩
  have hready : ((registry {}).ledger Sample.bucketStore).bucket? Sample.key.bucket = some .ready := by decide
  have hfree :
      (((registry {}).ledger Sample.bucketStore).object? Sample.key).all (·.status.isReplaceable) = true := by decide
  have hexclude := (registry {}).uploads_exclude (d := Sample.rivals) (k := Sample.key) (fun _ => rfl) hfits
    Sample.sound_bucketStore hready hfree [0, 1, 1, 0, 1, 1, 1, 1]
  exact ⟨by decide, hexclude (by decide)⟩

end Depot
