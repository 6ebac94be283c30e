import Depot.Proofs.Concurrent.Moves
import Depot.Proofs.Refinement

/-!
# Uploads and deletions of one name

Uploads, deletions and downloads of one name that run beside each other. A request that has registered a
record, or has marked one as about to be deleted, holds the name until it says what came of it, and no two
requests hold it at a time: a record is registered only where there is none in the way, and is marked only
where it may be. The latter is what a deletion does not see to. It finds the record, decides that it may be
deleted, and marks it by another call.

## Main results

* `Safe.step` — what a call preserves, if a deletion only marks what it may.
* `Registry.ready_as_uploaded` — a ready object has the bytes of the upload whose id it carries.
* `Store.ready_without_bytes` — not so, if a deletion marks what another one has deleted since.
-/

namespace Depot

open ObjectResource (uploading erasable)

/-- The object that a request concerns. -/
def Turn.key? : Turn → Option Key
  | upload d => some d.key
  | deleteObject k => some k
  | pull r => some r.key
  | _ => none

/-- If all requests concern one object, then so does each of them. -/
theorem Turn.key_eq {ι : Type} {t : ι → Turn} {k l : Key} (hon : ∀ i, (t i).key? = some k) {i : ι} {u : Turn}
    (hi : t i = u) (hu : u.key? = some l) : l = k := by
  subst hi
  exact Option.some.inj (hu.symm.trans (hon i))

/-- The state that the record of an object is in while a request holds it. -/
def Phase.held? : Phase → Option Status
  | writing _ | lost => some .upload
  | erasing _ => some .deleting
  | _ => none

section Holding

variable {ι : Type} [DecidableEq ι] {T : Terms} {t : ι → Turn} {k : Key} {p : ι → Phase} {x y : Ledger} {q : Phase}
  {i : ι}

/-- A name is held by one request at a time, and its record says so. -/
structure Held (t : ι → Turn) (p : ι → Phase) (x : Ledger) : Prop where
  marked : ∀ i u, (p i).held? = some u → ∃ k e, (t i).key? = some k ∧ x.object? k = some e ∧ e.status = u
  sole : ∀ i j, i ≠ j → (t i).key? = (t j).key? → (p i).held? = none ∨ (p j).held? = none
  keyed : ∀ i r, p i = .found r ∨ p i = .erasing r → (t i).key? = some r.key

/-- A call that does not concern the records. -/
theorem Held.keep (h : Held t p x) (hy : y.object? = x.object?) (hq : q.held? = (p i).held? ∨ q.held? = none)
    (hkey : ∀ r, q = .found r ∨ q = .erasing r → (t i).key? = some r.key) : Held t (Function.update p i q) y where
  marked j u hu := by
    rw [hy]
    by_cases hj : j = i
    · subst hj
      rw [Function.update_self] at hu
      rcases hq with hq | hq
      · exact h.marked j u (hq ▸ hu)
      · cases hq.symm.trans hu
    · rw [Function.update_of_ne hj] at hu
      exact h.marked j u hu
  sole j l hjl hkeys := by
    by_cases hj : j = i
    · subst hj
      rw [Function.update_self, Function.update_of_ne hjl.symm]
      rcases hq with hq | hq
      · exact hq ▸ h.sole j l hjl hkeys
      · exact .inl hq
    · rw [Function.update_of_ne hj]
      by_cases hl : l = i
      · subst hl
        rw [Function.update_self]
        rcases hq with hq | hq
        · exact hq ▸ h.sole j l hjl hkeys
        · exact .inr hq
      · rw [Function.update_of_ne hl]
        exact h.sole j l hjl hkeys
  keyed j r hr := by
    by_cases hj : j = i
    · subst hj
      rw [Function.update_self] at hr
      exact hkey r hr
    · rw [Function.update_of_ne hj] at hr
      exact h.keyed j r hr

/-- A call that changes a record, while no other request holds it. -/
theorem Held.change (h : Held t p x) (hi : (t i).key? = some k) (hy : ∀ l, l ≠ k → y.object? l = x.object? l)
    (hothers : ∀ j, j ≠ i → (t j).key? = some k → (p j).held? = none)
    (hq : ∀ u, q.held? = some u → ∃ e, y.object? k = some e ∧ e.status = u)
    (hkey : ∀ r, q = .found r ∨ q = .erasing r → r.key = k) : Held t (Function.update p i q) y where
  marked j u hu := by
    by_cases hj : j = i
    · subst hj
      rw [Function.update_self] at hu
      obtain ⟨e, he, hstatus⟩ := hq u hu
      exact ⟨k, e, hi, he, hstatus⟩
    · rw [Function.update_of_ne hj] at hu
      obtain ⟨l, e, hl, he, hstatus⟩ := h.marked j u hu
      by_cases hlk : l = k
      · cases (hothers j hj (hlk ▸ hl)).symm.trans hu
      · exact ⟨l, e, hl, (hy l hlk).trans he, hstatus⟩
  sole j l hjl hkeys := by
    by_cases hj : j = i
    · subst hj
      rw [Function.update_of_ne hjl.symm]
      exact .inr (hothers l hjl.symm (hkeys.symm.trans hi))
    · by_cases hl : l = i
      · subst hl
        rw [Function.update_of_ne hj]
        exact .inl (hothers j hj (hkeys.trans hi))
      · rw [Function.update_of_ne hj, Function.update_of_ne hl]
        exact h.sole j l hjl hkeys
  keyed j r hr := by
    by_cases hj : j = i
    · subst hj
      rw [Function.update_self] at hr
      rw [hkey r hr, hi]
    · rw [Function.update_of_ne hj] at hr
      exact h.keyed j r hr

omit [DecidableEq ι] in
theorem Held.start (x : Ledger) : Held t (fun _ => .idle) x where
  marked i u hu := by cases hu
  sole i j hij hkeys := .inl rfl
  keyed i r hr := by simp at hr

omit [DecidableEq ι] in
/-- Nobody else holds a record that a request holds. -/
theorem Held.alone (h : Held t p x) (hk : (t i).key? = some k) (hi : (p i).held? ≠ none) :
    ∀ j, j ≠ i → (t j).key? = some k → (p j).held? = none :=
  fun j hj hkey => (h.sole j i hj (hkey.trans hk.symm)).resolve_right hi

omit [DecidableEq ι] in
/-- Nobody holds a record that may be replaced, or marked. -/
theorem Held.nobody (h : Held t p x)
    (hx : ∀ e, x.object? k = some e → e.status ≠ .upload ∧ e.status ≠ .deleting) (j : ι)
    (hkey : (t j).key? = some k) : (p j).held? = none := by
  cases hj : (p j).held? with
  | none => rfl
  | some u =>
    obtain ⟨l, e, hl, he, rfl⟩ := h.marked j u hj
    obtain rfl := Option.some.inj (hkey.symm.trans hl)
    obtain ⟨hupload, hdeleting⟩ := hx e he
    cases hp : p j <;> simp_all [Phase.held?]

omit [DecidableEq ι] in
/-- The record of an upload that has not settled it. -/
theorem Held.uploading {d : Deposit} (h : Held t p x) (hi : t i = .upload d) (hp : (p i).held? = some .upload) :
    ∃ e, x.object? d.key = some e ∧ e.status = .upload := by
  obtain ⟨k, e, hk, he, hstatus⟩ := h.marked i .upload hp
  obtain rfl : d.key = k := Option.some.inj ((congrArg Turn.key? hi).symm.trans hk)
  exact ⟨e, he, hstatus⟩

/-- A call of an upload. -/
theorem Held.upload {d : Deposit} (h : Held t p x) (hi : t i = .upload d) (hmove : d.Moves T x (p i) q y) :
    Held t (Function.update p i q) y := by
  have hk : (t i).key? = some d.key := congrArg Turn.key? hi
  have hrecord : ∀ {r : ObjectRecord}, y = x.record r → r.key = d.key →
      ∀ l, l ≠ d.key → y.object? l = x.object? l := by
    rintro r rfl hr l hl
    simp [hr, hl]
  cases hmove with
  | waits hp hq hy =>
    subst hy
    exact h.keep rfl (.inl (by rw [hq])) (by rcases hp with hp | hp | hp | hp | hp <;> simp [hq, hp])
  | barred hp hq hy =>
    subst hy
    exact h.keep rfl (.inr (by rw [hq]; rfl)) (by simp [hq])
  | occupied u hp hq hy =>
    subst hy
    exact h.keep rfl (.inr (by rw [hq]; rfl)) (by simp [hq])
  | admitted r hp hq hy hr hid hentry hfree =>
    -- whoever held the record would have kept it from being replaced
    have hnobody := h.nobody (k := d.key) fun e he => by
      rw [he, Option.all_some] at hfree
      constructor <;> · intro hstatus; rw [hstatus] at hfree; cases hfree
    refine h.change hk (hrecord hy hr) (fun j _ => hnobody j) (fun u hu => ?_) (by simp [hq])
    rw [hq] at hu
    cases hu
    exact ⟨r.entry, by simp [hy, hr], congrArg Entry.status hentry⟩
  | puts plain hp hq hy => exact h.keep (by simp [hy]) (.inl (by rw [hq, hp]; rfl)) (by simp [hq])
  | completes r plain hp hq hy hr =>
    exact h.change hk (hrecord hy hr) (h.alone hk (by simp [hp, Phase.held?])) (by simp [hq, Phase.held?])
      (by simp [hq])
  | fails r hp hq hy hr =>
    refine h.change hk (hrecord hy hr) (h.alone hk ?_) (by simp [hq, Phase.held?]) (by simp [hq])
    rcases hp with ⟨b, hp⟩ | hp <;> simp [hp, Phase.held?]
  | gives n hp hq hy =>
    subst hy
    refine h.keep rfl (.inl ?_) (by simp [hq])
    rcases hp with ⟨hp, -⟩ | ⟨plain, hp, -⟩ <;> rw [hq, hp] <;> rfl
  | strays bytes hp hq hy => exact h.keep (by simp [hy]) (.inr (by rw [hq]; rfl)) (by simp [hq])

/-- A call of a deletion that only marks what it may. -/
theorem Held.deletion {c : Call} (h : Held t p x) (hi : t i = .deleteObject k) (hok : x.MayMark c)
    (hmove : Turn.Deletion k x c (p i) q y) : Held t (Function.update p i q) y := by
  have hk : (t i).key? = some k := congrArg Turn.key? hi
  have hkey : ∀ {r}, p i = .found r ∨ p i = .erasing r → r.key = k := fun hr =>
    Option.some.inj ((h.keyed i _ hr).symm.trans hk)
  have hrecord : ∀ {r : ObjectRecord} {u : Status}, y = x.record (r.turn u) → r.key = k →
      ∀ l, l ≠ k → y.object? l = x.object? l := by
    rintro r u rfl hr l hl
    simp [hr, hl]
  cases hmove with
  | waits hp hq hy =>
    subst hy
    refine h.keep rfl (.inl (by rw [hq])) fun r hr => h.keyed i r (hq ▸ hr)
  | finds r hp hq hy hr =>
    subst hy
    exact h.keep rfl (.inr (by rw [hq]; rfl)) (by simp [hq, hr, hk])
  | marks r hp hq hy hc =>
    have hr := hkey (.inl hp)
    subst hc
    -- the record that was found may be out of date; what counts is the one that is there
    obtain ⟨e, he, herasable⟩ := hok (r.turn .deleting) rfl
    have hnobody := h.nobody (k := k) fun e' he' => by
      rw [ObjectRecord.key_turn, hr, he'] at he
      obtain rfl := Option.mem_some.mp he
      rcases herasable with hstatus | hstatus | hstatus <;> simp [hstatus]
    refine h.change hk (hrecord hy hr) (fun j _ => hnobody j) (fun u hu => ?_) (by simp [hq, hr])
    rw [hq] at hu
    cases hu
    exact ⟨r.entry.turn .deleting, by simp [hy, hr], rfl⟩
  | refused r hp hq hy =>
    subst hy
    exact h.keep rfl (.inr (by rw [hq]; rfl)) (by simp [hq])
  | erases r v hp hq hy hv =>
    subst hy
    exact h.keep hv.object? (.inl (by rw [hq])) fun r hr => h.keyed i r (hq ▸ hr)
  | ends r u hp hq hu hy =>
    rcases hy with hy | hy
    · exact h.change hk (hrecord hy (hkey (.inr hp))) (h.alone hk (by simp [hp, Phase.held?]))
        (by simp [hq, Phase.held?]) (by simp [hq])
    · exact h.keep (by rw [hy]) (.inr (by rw [hq]; rfl)) (by simp [hq])

/-- A call of a download. -/
theorem Held.retrieval {c : Call} (h : Held t p x) (hk : (t i).key? = some k)
    (hmove : Turn.Retrieval k x c (p i) q) : Held t (Function.update p i q) x := by
  cases hmove with
  | finds r hp hq hr => exact h.keep rfl (.inr (by rw [hq]; rfl)) (by simp [hq, hr, hk])
  | sees r hp hq => exact h.keep rfl (.inl (by rw [hq])) fun r hr => h.keyed i r (hq ▸ hr)
  | misses hp hq => exact h.keep rfl (.inr (by rw [hq]; rfl)) (by simp [hq])
  | opens r a hp hq => exact h.keep rfl (.inr (by rw [hq]; rfl)) (by simp [hq])

end Holding

/-! ## The bytes of a ready object -/

section Tracking

variable {ι : Type} [DecidableEq ι] {T : Terms} {t : ι → Turn} {k : Key} {p : ι → Phase} {x₀ x y : Ledger}
  {q : Phase} {i : ι} {c : Call}

/-- Whether an object is as it was, or as one of the requests has uploaded it. -/
def Genuine (t : ι → Turn) (k : Key) (x₀ x : Ledger) : Prop :=
  (x.object? k = x₀.object? k ∧ x.id? k = x₀.id? k ∧ x.bytes? k.path = x₀.bytes? k.path) ∨
    ∃ i d plain, t i = .upload d ∧ d.Brings plain ∧ x.object? k = some (d.entry plain) ∧
      x.id? k = some d.context.recordId ∧ x.bytes? k.path = some plain

/-- Every ready object is genuine, and what an upload has put in place is there until its record says so. -/
structure Tracked (t : ι → Turn) (k : Key) (x₀ : Ledger) (p : ι → Phase) (x : Ledger) : Prop where
  ready : ∀ e, x.object? k = some e → e.status = .ready → Genuine t k x₀ x
  written : ∀ i plain, p i = .writing (some plain) →
    x.bytes? k.path = some plain ∧ ∃ d, t i = .upload d ∧ d.Brings plain

theorem Tracked.step (h : Tracked t k x₀ p x)
    (hready : ∀ e, y.object? k = some e → e.status = .ready → Genuine t k x₀ y)
    (hbytes : y.bytes? k.path = x.bytes? k.path ∨ ∀ j, j ≠ i → (p j).held? = none)
    (hq : ∀ plain, q = .writing (some plain) →
      y.bytes? k.path = some plain ∧ ∃ d, t i = .upload d ∧ d.Brings plain) :
    Tracked t k x₀ (Function.update p i q) y where
  ready := hready
  written j plain hj := by
    by_cases hji : j = i
    · subst hji
      rw [Function.update_self] at hj
      exact hq plain hj
    · rw [Function.update_of_ne hji] at hj
      rcases hbytes with hbytes | hothers
      · exact hbytes ▸ h.written j plain hj
      · have hnone := hothers j hji
        rw [hj] at hnone
        cases hnone

/-- A call of an upload, if no backend outlives it. -/
theorem Tracked.upload {d : Deposit} (h : Tracked t k x₀ p x) (hheld : Held t p x) (hon : ∀ i, (t i).key? = some k)
    (hi : t i = .upload d) (hmove : d.Moves T x (p i) q y) :
    q = .stray ∨ Tracked t k x₀ (Function.update p i q) y := by
  obtain rfl : d.key = k := Turn.key_eq hon hi rfl
  cases hmove with
  | waits hp hq hy =>
    subst hy
    refine .inr (h.step h.ready (.inl rfl) ?_)
    rcases hp with hp | hp | hp | hp | hp <;> simp [hq, hp]
  | barred hp hq hy =>
    subst hy
    exact .inr (h.step h.ready (.inl rfl) (by simp [hq]))
  | occupied u hp hq hy =>
    subst hy
    exact .inr (h.step h.ready (.inl rfl) (by simp [hq]))
  | admitted r hp hq hy hr hid hentry =>
    refine .inr (h.step (fun e he hready => ?_) (.inl (by simp [hy])) (by simp [hq]))
    obtain rfl : uploading = e := by simpa [hy, hr, hentry] using he
    cases hready
  | puts plain hp hq hy hplain =>
    -- nobody else has bytes in place, and the object is not ready
    have hothers := hheld.alone (hon i) (by simp [hp, Phase.held?])
    refine .inr (h.step (fun e he hready => ?_) (.inr fun j hj => hothers j hj (hon j)) fun b hb => ?_)
    · obtain ⟨e', he', hstatus⟩ := hheld.uploading hi (by rw [hp]; rfl)
      obtain rfl : e' = e := by simpa [hy, he'] using he
      cases hstatus.symm.trans hready
    · obtain rfl : plain = b := by simpa [hq] using hb
      exact ⟨by simp [hy], d, hi, (d.brings_iff plain).mpr hplain⟩
  | completes r plain hp hq hy hr hid hentry =>
    obtain ⟨hbytes, d', hd', hbrings⟩ := h.written i plain hp
    obtain rfl : d = d' := by simpa using hi.symm.trans hd'
    refine .inr (h.step (fun e he _ => .inr ⟨i, d, plain, hi, hbrings, ?_, ?_, ?_⟩) (.inl (by simp [hy]))
      (by simp [hq]))
    · simp [hy, hr, hentry]
    · simp [hy, hr, hid]
    · simpa [hy] using hbytes
  | fails r hp hq hy hr hid hstatus =>
    refine .inr (h.step (fun e he hready => ?_) (.inl (by simp [hy])) (by simp [hq]))
    obtain rfl : r.entry = e := by simpa [hy, hr] using he
    cases hstatus.symm.trans hready
  | gives n hp hq hy =>
    subst hy
    exact .inr (h.step h.ready (.inl rfl) (by simp [hq]))
  | strays bytes hp hq hy => exact .inl hq

/-- A call of a deletion. -/
theorem Tracked.deletion (h : Tracked t k x₀ p x) (hheld : Held t p x) (hon : ∀ i, (t i).key? = some k)
    (hmove : Turn.Deletion k x c (p i) q y) : Tracked t k x₀ (Function.update p i q) y := by
  cases hmove with
  | waits hp hq hy =>
    subst hy
    refine h.step h.ready (.inl rfl) ?_
    rcases hp with hp | ⟨r, hp⟩ <;> simp [hq, hp]
  | finds r hp hq hy =>
    subst hy
    exact h.step h.ready (.inl rfl) (by simp [hq])
  | marks r hp hq hy hc =>
    have hkey : r.key = k := Turn.key_eq hon rfl (hheld.keyed i r (.inl hp))
    refine h.step (fun e he hready => ?_) (.inl (by simp [hy])) (by simp [hq])
    obtain rfl : r.entry.turn .deleting = e := by simpa [hy, hkey] using he
    cases hready
  | refused r hp hq hy =>
    subst hy
    exact h.step h.ready (.inl rfl) (by simp [hq])
  | erases r v hp hq hy hv =>
    have hothers := hheld.alone (hon i) (by simp [hp, Phase.held?])
    refine h.step (fun e he hready => ?_) (.inr fun j hj => hothers j hj (hon j)) (by simp [hq, hp])
    obtain ⟨l, e', hl, he', hstatus⟩ := hheld.marked i .deleting (by rw [hp]; rfl)
    obtain rfl := Turn.key_eq hon rfl hl
    rw [hy, hv.object?, he'] at he
    obtain rfl := Option.some.inj he
    cases hstatus.symm.trans hready
  | ends r u hp hq hu hy =>
    have hkey : r.key = k := Turn.key_eq hon rfl (hheld.keyed i r (.inr hp))
    rcases hy with hy | hy
    · refine h.step (fun e he hready => ?_) (.inl (by simp [hy])) (by simp [hq])
      obtain rfl : r.entry.turn u = e := by simpa [hy, hkey] using he
      rcases hu with rfl | rfl <;> cases hready
    · subst hy
      exact h.step h.ready (.inl rfl) (by simp [hq])

/-- A call of a download. -/
theorem Tracked.retrieval (h : Tracked t k x₀ p x) (hmove : Turn.Retrieval k x c (p i) q) :
    Tracked t k x₀ (Function.update p i q) x := by
  refine h.step h.ready (.inl rfl) ?_
  cases hmove with
  | finds r hp hq => simp [hq]
  | sees r hp hq => simp [hq, hp]
  | misses hp hq => simp [hq]
  | opens r a hp hq => simp [hq]

/-- Whether a backend that outlived its upload has put bytes in place. -/
def Stray (t : ι → Turn) (p : ι → Phase) : Prop := ∃ i d, t i = .upload d ∧ p i = .stray

theorem Stray.step {a : Reply c.Answer} (h : Stray t p) (hp : (t i).protocol.Permits (p i) c)
    (ha : x.Allows T c a y) : Stray t (Function.update p i ((t i).protocol.next (p i) c a)) := by
  obtain ⟨j, d, hd, hj⟩ := h
  refine ⟨j, d, hd, ?_⟩
  by_cases hji : j = i
  · subst hji
    rw [hd] at hp
    rw [Function.update_self, hd]
    exact (Deposit.moves hp ha).stray hj
  · rwa [Function.update_of_ne hji]

/-- What every call preserves. -/
structure Safe (t : ι → Turn) (k : Key) (x₀ : Ledger) (p : ι → Phase) (x : Ledger) : Prop where
  held : Held t p x
  tracked : Stray t p ∨ Tracked t k x₀ p x

theorem Safe.step {a : Reply c.Answer} (h : Safe t k x₀ p x) (hon : ∀ i, (t i).key? = some k)
    (hp : (t i).protocol.Permits (p i) c) (hok : x.MayMark c) (ha : x.Allows T c a y) :
    Safe t k x₀ (Function.update p i ((t i).protocol.next (p i) c a)) y := by
  have hstray := fun hstray : Stray t p => hstray.step hp ha
  cases hi : t i with
  | upload d =>
    rw [hi] at hp hstray
    have hmove := Deposit.moves hp ha
    refine ⟨h.held.upload hi hmove, ?_⟩
    rcases h.tracked with htracked | htracked
    · exact .inl (hstray htracked)
    · refine (htracked.upload h.held hon hi hmove).imp_left fun hq => ⟨i, d, hi, ?_⟩
      rw [Function.update_self]
      exact hq
  | deleteObject l =>
    obtain rfl : l = k := Turn.key_eq hon hi rfl
    rw [hi] at hp hstray
    have hmove := Turn.deletion_moves hp ha
    exact ⟨h.held.deletion hi hok hmove, h.tracked.imp hstray fun htracked => htracked.deletion h.held hon hmove⟩
  | pull r =>
    obtain rfl : r.key = k := Turn.key_eq hon hi rfl
    rw [hi] at hp hstray
    obtain ⟨hmove, rfl⟩ := Turn.retrieval_moves hp ha
    exact ⟨h.held.retrieval (hon i) hmove, h.tracked.imp hstray fun htracked => htracked.retrieval hmove⟩
  | createBucket _ _ _ | deleteBucket _ => cases (congrArg Turn.key? hi).symm.trans (hon i)

omit [DecidableEq ι] in
theorem Safe.start (x : Ledger) : Safe t k x (fun _ => .idle) x where
  held := .start x
  tracked := .inr ⟨fun _ _ _ => .inl ⟨rfl, rfl, rfl⟩, fun i plain hi => (by cases hi)⟩

/-- Whether no request waited for too long. -/
def Scene.Prompt {σ : Type} (z : Scene ι σ Result) : Prop := ∀ i, ∀ r ∈ (z.tasks i).result?, r.Prompt

instance decidablePrompt {σ : Type} {n : Nat} (z : Scene (Fin n) σ Result) : Decidable z.Prompt :=
  inferInstanceAs (Decidable (∀ i, ∀ r ∈ (z.tasks i).result?, r.Prompt))

omit [DecidableEq ι] in
/-- No backend outlives an upload that did not wait for too long. -/
theorem Scene.Follows.not_stray {σ : Type} {z : Scene ι σ Result}
    (hz : z.Follows (fun i => (t i).protocol) (fun i => (t i).Ends) p) (hover : z.Over) (hprompt : z.Prompt) :
    ¬ Stray t p := by
  rintro ⟨i, d, hd, hi⟩
  obtain ⟨r, -, hr⟩ := hover.done i
  have hends : Turn.Ends (.upload d) r .stray := hd ▸ hi ▸ hz.of_done hr
  have hr := hprompt i r hr
  cases r with
  | upload e b =>
    obtain ⟨u, ⟨-, htimeout⟩, rfl⟩ := hends
    exact hr htimeout
  | _ => exact hends.elim

/-- Uploads, deletions and downloads of one name that run beside each other, in whatever order they make their
calls, as long as a deletion marks the record where it may: an object that is ready in the end is as it was, or
it carries the id of one of the uploads, and its bytes are what was uploaded. -/
theorem Registry.ready_as_uploaded {σ : Type} {perform : (c : Call) → σ → Reply c.Answer × σ}
    (R : Registry T perform) (hon : ∀ i, (t i).key? = some k) {s : σ} (hs : R.Sound s) (schedule : List ι) :
    let z₀ : Scene ι σ Result := { tasks := fun i => (t i).course, store := s }
    let z := Scene.run perform schedule z₀
    Scene.Along perform (fun s c => (R.ledger s).MayMark c) schedule z₀ → z.Over → z.Prompt →
      ∀ e, (R.ledger z.store).object? k = some e → e.status = .ready →
        Genuine t k (R.ledger s) (R.ledger z.store) := by
  intro z₀ z hok hover hprompt
  obtain ⟨-, p, hz, hp⟩ := Scene.run_induction R (fun p x _ => Safe t k (R.ledger s) p x)
    (fun _ hok h hp ha => h.step hon hp hok ha) hs (Turn.follows_courses t s) (.start _) hok
  exact (hp.tracked.resolve_left (hz.not_stray hover hprompt)).ready

end Tracking

namespace Sample

def record : ObjectRecord where
  id := "a1"
  bucket := key.bucket
  name := key.name
  status := .ready
  size := 3
  hash := some (Base32.encode (Sha256.digest [1, 2, 3]))

/-- A store with an object. -/
def objectStore : Store where
  catalog := .memory { buckets := [(key.bucket, { name := key.bucket })], objects := [(key, record)] }
  storage := .memory { limit := 10, objects := [(key.path, [1, 2, 3])] }

theorem sound_objectStore : objectStore.Sound {} := by
  refine ⟨⟨fun e he => ?_, fun _ => trivial⟩, _, rfl⟩
  obtain rfl := List.mem_singleton.mp he
  rfl

/-- An upload of other bytes under the same name. -/
def successor : Deposit :=
  { deposit with context := { context with recordId := "b2" }, body := .ofPieces [[4, 5]] }

/-- An object is deleted and uploaded again. -/
def replacement (i : Fin 2) : Turn := [.deleteObject key, .upload successor][i]

/-- An object is deleted by two requests, and uploaded again. -/
def race (i : Fin 3) : Turn := [.deleteObject key, .deleteObject key, .upload successor][i]

end Sample

/-- An upload finds the bucket ready while the object is being deleted, and registers its record once it is. -/
theorem Store.ready_as_uploaded_again :
    let z₀ : Scene (Fin 2) Store Result :=
      { tasks := fun i => (Sample.replacement i).course, store := Sample.objectStore }
    let z := Scene.run perform [0, 1, 0, 0, 0, 1, 1, 1, 1, 1] z₀
    z.Over ∧ ∃ e, ((registry {}).ledger z.store).object? Sample.key = some e ∧ e.status = .ready ∧
      Genuine Sample.replacement Sample.key ((registry {}).ledger Sample.objectStore)
        ((registry {}).ledger z.store) := by
  have hon : ∀ i, (Sample.replacement i).key? = some Sample.key
    | 0 => rfl
    | 1 => rfl
  have hgenuine := (registry {}).ready_as_uploaded (t := Sample.replacement) (k := Sample.key) hon
    Sample.sound_objectStore [0, 1, 0, 0, 0, 1, 1, 1, 1, 1] (by decide) (by decide) (by decide)
  exact ⟨by decide, _, rfl, by decide, hgenuine _ rfl (by decide)⟩

/-- Two deletions find the object ready. One of them is over before the other marks the record, which an upload
has registered again by then: the upload goes on, and its bytes are erased. -/
theorem Store.ready_without_bytes :
    let z : Scene (Fin 3) Store Result := Scene.run perform [0, 1, 0, 0, 0, 2, 2, 2, 2, 2, 1, 1, 1, 2]
      { tasks := fun i => (Sample.race i).course, store := Sample.objectStore }
    z.Over ∧ z.Prompt ∧ ((registry {}).ledger z.store).bytes? Sample.key.path = none ∧
      (∃ e, ((registry {}).ledger z.store).object? Sample.key = some e ∧ e.status = .ready) ∧
      ¬ Genuine Sample.race Sample.key ((registry {}).ledger Sample.objectStore) ((registry {}).ledger z.store) := by
  intro z
  have hbytes : ((registry {}).ledger z.store).bytes? Sample.key.path = none := by decide
  refine ⟨by decide, by decide, hbytes, ⟨_, rfl, by decide⟩, ?_⟩
  rintro (⟨-, -, hsame⟩ | ⟨i, d, plain, hi, hbrings, hentry, hid, hnew⟩)
  · cases hbytes.symm.trans hsame
  · cases hbytes.symm.trans hnew

end Depot
