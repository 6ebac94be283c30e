import Depot.Proofs.Consistency
import Depot.Proofs.Filter
import Depot.Proofs.Store.Backend
import Depot.Proofs.Text

/-!
# Checks agree with downloads

What a check says of a key is what downloads would say: it names an object where a download would be served,
a directory where one of something below it would be, and nothing elsewhere. The check looks at the bucket,
the record and a listing, and a download at the record and the bytes; they agree since an object is ready only
in a ready bucket, with its bytes in place.

## Main results

* `Faithful.succeeds_iff` — a download is served exactly where there is a ready record.
* `play_kindOf` — what a check says after any history.
-/

namespace Depot

open Depot.Action
open ObjectResource (Kind kindOf)

/-- Whether a key lies below another one, as what is in a directory does. -/
def Key.Below (k l : Key) : Prop :=
  l.Valid ∧ l.bucket = k.bucket ∧ ∃ rest, rest ≠ "" ∧ l.name = k.name ++ "/" ++ rest

variable {σ : Type} {B : Backend σ} {T : Terms} {s : Catalog × σ} {k l : Key}

/-- Whether a download would be served. -/
def Retrieval.Succeeds (perform : (c : Call) → σ → Reply c.Answer × σ) (r : Retrieval) (s : σ) : Prop :=
  ∃ a, (r.course.run perform s).1.answer? = some a ∧ a.status = 200

/-- Whether a catalog has a ready record. -/
def Catalog.HasReady (c : Catalog) (k : Key) : Prop := ∃ r, c.getObject k = some r ∧ r.status = .ready

/-- A download is served exactly where there is a ready record. -/
theorem Faithful.succeeds_iff {h : List Event} (hv : Faithful h (B.view s)) (hs : Backend.Sound T s)
    (hT : T.MayKeep) (r : Retrieval) : r.Succeeds B.beside s ↔ s.1.HasReady r.key := by
  have hpull : r.course.Ensures T (fun x _ => Download.Pulled r.context.order r.session r.key (B.view s) x) (B.view s) := by
    simp only [Retrieval.course, Program.ensures_bind, Program.ensures_pure]
    exact (Download.ensures_pull rfl rfl).mono fun _ _ h => h.1
  have hpulled := ((B.contract hT).ensures_run hs hpull).2
  rw [Retrieval.Succeeds]
  constructor
  · rintro ⟨a, ha, hstatus⟩
    generalize hx : (r.course.run B.beside s).1 = x at ha hpulled
    cases hpulled with
    | @served y source bytes hy hready =>
      obtain ⟨y', hy', hentry⟩ := Backend.object?_eq_some_iff.mp hy
      exact ⟨y', hy', (congrArg Entry.status hentry).trans hready⟩
    | missing hmissing =>
      obtain rfl := Option.some.inj ha
      cases hmissing.symm.trans hstatus
  · rintro ⟨y, hy, hready⟩
    have hentry : (B.view s).object? r.key = some y.entry := Backend.object?_eq_some_iff.mpr ⟨y, hy, rfl⟩
    obtain ⟨-, d, x, plain, -, hholds⟩ := hv.ready r.key y.entry hentry hready
    generalize hx : (r.course.run B.beside s).1 = x at hpulled
    cases hpulled with
    | served => exact ⟨_, rfl, rfl⟩
    | missing _ hnone => cases (hnone _ hentry hready).symm.trans hholds.bytes?

/-- What a check says of a key. -/
def Catalog.kind (c : Catalog) (k : Key) : Kind :=
  if !c.hasBucket k.bucket then .nothing
  else if (c.getObject k).any fun r => r.status == .ready then .object
  else if (c.listObjects k.bucket { nameStart := some (k.name ++ "/"), statuses := [.ready] }).isEmpty then .nothing
  else .directory

theorem run_kindOf (B : Backend σ) (s : Catalog × σ) (k : Key) :
    ((kindOf k).start ()).run B.beside s = ((.ok (s.1.kind k), ()), s) := by
  let P (x : Except Trouble Kind × Unit) (t : Catalog × σ) : Prop := (x, t) = ((.ok (s.1.kind k), ()), s)
  have hrun : ((kindOf k).start ()).wp (.running B.beside) P s := by
    rw [wp_start]
    simp only [kindOf, ObjectResource.hasBucket, wp_bind, wp_call, wp_pure]
    refine Meaning.pre_running_of_eq (B.beside_getBucket k.bucket s) ?_
    simp only [Reply.called_ok]
    split <;> rename_i hbucket
    · simp only [wp_pure, P, Catalog.kind, Catalog.hasBucket, hbucket, if_true]
    · simp only [wp_bind, wp_call]
      refine Meaning.pre_running_of_eq (B.beside_getObject k s) ?_
      simp only [Reply.called_ok]
      split <;> rename_i hready
      · simp only [wp_pure, P, Catalog.kind, Catalog.hasBucket, if_neg hbucket, if_pos hready]
      · simp only [wp_bind, wp_call]
        refine Meaning.pre_running_of_eq (B.beside_listObjects k.bucket _ s) ?_
        simp only [Reply.called_ok, wp_pure, P, Catalog.kind, Catalog.hasBucket, if_neg hbucket, if_neg hready]
  exact Program.wp_running_iff.mp hrun

/-! ## What a check says -/

/-- Whether a check says the right thing of a key that is served or not, and may have something served below it. -/
structure Kind.Says (kind : Kind) (served below : Prop) : Prop where
  object : kind = .object ↔ served
  directory : kind = .directory ↔ ¬ served ∧ below
  nothing : kind = .nothing ↔ ¬ served ∧ ¬ below

namespace Catalog

variable {c : Catalog}

theorem any_getObject_iff : ((c.getObject k).any fun r => r.status == .ready) = true ↔ c.HasReady k := by
  rw [HasReady]
  cases c.getObject k <;> simp

/-- What is below a key is what the check asks for. -/
theorem mem_listObjects_below (hc : c.Arranged) (hk : k.Valid) {r : ObjectRecord} :
    r ∈ c.listObjects k.bucket { nameStart := some (k.name ++ "/"), statuses := [.ready] } ↔
      c.getObject r.key = some r ∧ r.bucket = k.bucket ∧ (∃ rest, r.name = k.name ++ "/" ++ rest) ∧
        r.status = .ready := by
  have hnul : Char.ofNat 0 ∉ (k.name ++ "/").toList := by
    have hname := (Key.valid_iff.mp hk).2
    simp only [isObjectName, Bool.and_eq_true, Bool.not_eq_true', List.contains_eq_mem, decide_eq_false_iff_not] at hname
    simpa using hname.1.2
  rw [hc.mem_listObjects (by simpa using hnul), Filter.accepts_iff]
  simp

/-- A listing of what is below a key is empty exactly where nothing ready is below it. -/
theorem isEmpty_below_iff (hc : c.Arranged) (hk : k.Valid) (hvalid : ∀ l, c.HasReady l → l.Valid) :
    (c.listObjects k.bucket { nameStart := some (k.name ++ "/"), statuses := [.ready] }).isEmpty = true ↔
      ¬ ∃ l, k.Below l ∧ c.HasReady l := by
  rw [List.isEmpty_iff, List.eq_nil_iff_forall_not_mem, not_exists]
  constructor
  · rintro hempty l ⟨⟨-, hbucket, rest, -, hname⟩, r, hr, hready⟩
    have hkey : r.key = l := hc.key_getObject hr
    subst hkey
    exact hempty r ((mem_listObjects_below hc hk).mpr ⟨hr, hbucket, ⟨rest, hname⟩, hready⟩)
  · intro hnone r hr
    obtain ⟨hobject, hbucket, ⟨rest, hname⟩, hready⟩ := (mem_listObjects_below hc hk).mp hr
    have hl : c.HasReady r.key := ⟨r, hobject, hready⟩
    refine hnone r.key ⟨⟨hvalid _ hl, hbucket, rest, ?_, hname⟩, hl⟩
    rintro rfl
    -- nothing behind the slash: then the name itself would end with one
    have hends : isObjectName r.name = true := (Key.valid_iff.mp (hvalid _ hl)).2
    rw [hname, String.append_empty, not_isObjectName_slash] at hends
    cases hends

/-- A check says of a key what the ready records say. -/
theorem kind_says_ready (hc : c.Arranged) (hk : k.Valid)
    (hready : ∀ l, c.HasReady l → l.Valid ∧ c.hasBucket l.bucket = true) :
    Kind.Says (c.kind k) (c.HasReady k) (∃ l, k.Below l ∧ c.HasReady l) := by
  have hbelow := isEmpty_below_iff hc hk fun l hl => (hready l hl).1
  rw [kind]
  split
  · rename_i hmissing
    rw [Bool.not_eq_true'] at hmissing
    have hobject : ¬ c.HasReady k := fun h => by cases hmissing.symm.trans (hready k h).2
    have hnothing : ¬ ∃ l, k.Below l ∧ c.HasReady l := by
      rintro ⟨l, ⟨-, hbucket, -⟩, hl⟩
      have hthere := (hready l hl).2
      rw [hbucket, hmissing] at hthere
      cases hthere
    exact ⟨by simp [hobject], by simp [hobject, hnothing], by simp [hobject, hnothing]⟩
  · split
    · rename_i hobject
      rw [any_getObject_iff] at hobject
      exact ⟨by simp [hobject], by simp [hobject], by simp [hobject]⟩
    · rename_i hobject
      rw [any_getObject_iff] at hobject
      split
      · rename_i hempty
        exact ⟨by simp [hobject], by simp [hobject, hbelow.mp hempty], by simp [hobject, hbelow.mp hempty]⟩
      · rename_i hempty
        have hthere := not_not.mp fun h => hempty (hbelow.mpr h)
        exact ⟨by simp [hobject], by simp [hobject, hthere], by simp [hobject, hthere]⟩

end Catalog

/-! ## After any history -/

/-- After any history that begins with nothing, a check says of a key what downloads would: that it is an object
if a download of it would be served, a directory if not that but a download of something below it would be, and
nothing otherwise. -/
theorem play_kindOf (B : Backend σ) {engine : String} {c : Catalog} (hc : Catalog.open' engine = .ok c) {t : σ}
    (ht : ∀ path, B.bytes? t path = none) (turns : List Turn)
    (hprompt : ∀ x ∈ (play B.beside turns (c, t)).1, x.result.Prompt) {k : Key} (hk : k.Valid) (r : Retrieval)
    (hr : r.key = k) :
    let s := (play B.beside turns (c, t)).2
    ∃ kind, (((kindOf k).start ()).run B.beside s).1.1 = .ok kind ∧
      Kind.Says kind (r.Succeeds B.beside s) (∃ r' : Retrieval, k.Below r'.key ∧ r'.Succeeds B.beside s) := by
  intro s
  have hinit : Faithful [] (B.view (c, t)) := B.view_open hc ht ▸ .empty
  have hs : Backend.Sound c.terms (c, t) := Backend.sound_open hc
  obtain ⟨hsound, hfaithful⟩ :=
    play_induction (B.contract c.mayKeep_terms) Faithful (fun _ hv => hv.step) [] hs hinit hprompt
  have hready : ∀ l, s.1.HasReady l → l.Valid ∧ s.1.hasBucket l.bucket = true := by
    rintro l ⟨y, hy, hstatus⟩
    have hentry : (B.view s).object? l = some y.entry := Backend.object?_eq_some_iff.mpr ⟨y, hy, rfl⟩
    exact ⟨hfaithful.named.keys l (Option.isSome_of_eq_some hentry),
      (Catalog.hasBucket_iff _).mpr (hfaithful.ready l y.entry hentry hstatus).1⟩
  have hserved (r' : Retrieval) : r'.Succeeds B.beside s ↔ s.1.HasReady r'.key :=
    hfaithful.succeeds_iff hsound c.mayKeep_terms r'
  have hbelow : (∃ r' : Retrieval, k.Below r'.key ∧ r'.Succeeds B.beside s) ↔ ∃ l, k.Below l ∧ s.1.HasReady l := by
    simp only [hserved]
    constructor
    · rintro ⟨r', h⟩
      exact ⟨r'.key, h⟩
    · rintro ⟨l, h⟩
      exact ⟨{ r with key := l }, h⟩
  refine ⟨s.1.kind k, by rw [run_kindOf], ?_⟩
  rw [hserved, hbelow, hr]
  exact Catalog.kind_says_ready hsound.2 hk hready

/-- A directory of an object that was uploaded. -/
theorem play_kindOf_directory :
    let s := (play Backend.flaky.beside Sample.turns (.memory {}, 0, {})).2
    let r : Retrieval := { context := Sample.context, key := ⟨"photos", "2024"⟩ }
    (((kindOf r.key).start ()).run Backend.flaky.beside s).1.1 = .ok .directory ∧
      ∃ r' : Retrieval, r.key.Below r'.key ∧ r'.Succeeds Backend.flaky.beside s := by
  intro s r
  have hopen : Catalog.open' "memory" = .ok (.memory {}) := rfl
  obtain ⟨kind, hkind, hverdict⟩ := play_kindOf Backend.flaky (t := (0, {})) hopen (fun _ => rfl) Sample.turns (by decide)
    (k := r.key) (by decide) r rfl
  have hdirectory : (((kindOf r.key).start ()).run Backend.flaky.beside s).1.1 = .ok .directory := by decide
  obtain rfl : kind = .directory := Except.ok.inj (hkind.symm.trans hdirectory)
  exact ⟨hdirectory, (hverdict.directory.mp rfl).2⟩

end Depot
