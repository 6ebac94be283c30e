import Depot.Proofs.Consistency
import Depot.Proofs.Header
import Depot.Proofs.Outlet
import Depot.Proofs.Zstd.Stored

/-!
# A store of objects is a map

As long as the storage erases what it is told to erase, the gateway is a map from keys to payloads. A
download serves what was uploaded last, if it was not deleted since, and there is nothing else to serve.

## Main results

* `Returns` — what a download says of an upload.
* `Complete.answers` — a download finds what was uploaded, and nothing else.
* `Contract.pull_answers` — a download after any history, on any store that keeps the contract.
-/

namespace Depot

open Download (Pulled served)
open Upload (created recordedHash)

variable {T : Terms} {v w : Snapshot} {t : Turn} {r : Result} {k : Key} {e : Entry}

/-! ## What was uploaded is ready -/

/-- A ready object is spared by a request, or deleted by it, if the storage erases what it is told to. -/
theorem Turn.Effect.keeps (hT : ¬ T.MayKeep) (hv : Named v) (h : t.Effect T v w r) (hk : v.object? k = some e)
    (he : e.status = .ready) : Spared v w ⟨t, r⟩ k ∨ Event.Deletes k ⟨t, r⟩ := by
  have hvalid : k.Valid := hv.keys k (by simp [hk])
  cases h with
  | createBucket h => exact .inl (.of_created h)
  | @deleteBucket name a h =>
    by_cases hother : k.bucket = name
    · rcases h with rfl | ⟨-, hidle, -⟩
      · exact .inl (.refl Event.untouched_of_bucket)
      · exact absurd (he ▸ List.mem_cons_self) (hidle k e hother hk)
    · exact .inl (.of_removed hv h hvalid hother)
  | @deleteObject l a h =>
    by_cases hother : k = l
    · subst hother
      cases a with
      | ok x => exact .inr rfl
      | error x =>
        rcases h with rfl | ⟨hkeep, -⟩
        · exact .inl (.refl Event.untouched_of_error)
        · exact absurd hkeep hT
    · exact .inl (.of_erased hv h hvalid hother)
  | @upload d x b h =>
    by_cases hother : k = d.key
    · subst hother
      have hbusy : ¬ ObjectResource.Free d.key v := by
        rintro ⟨hfree, -⟩
        rw [hk, Option.all_some, he] at hfree
        cases hfree
      cases h with
      | refused hx => exact .inl (.refl fun h => hx (Event.touches_upload.mp h).2)
      | failed hfree => exact absurd hfree hbusy
      | unfit hfree => exact absurd hfree hbusy
      | stored hfree => exact absurd hfree hbusy
    · exact .inl (.of_deposited h hvalid hother)
  | pull h hw => exact .inl (hw ▸ .refl Event.untouched_of_pull)

/-- Whether every object that was uploaded, and not deleted since, is ready, and nothing became of it
since. -/
structure Complete (h : List Event) (v : Snapshot) : Prop where
  faithful : Faithful h v
  served : ∀ k d a, Served h k d a →
    Latest h k d a ∧ ∃ e, v.object? k = some e ∧ e.status = .ready

theorem Complete.empty : Complete [] .empty := ⟨.empty, fun _ _ _ h => absurd h not_since_nil⟩

theorem Complete.step {h : List Event} (hT : ¬ T.MayKeep) (hv : Complete h v) (heffect : t.Effect T v w r) :
    Complete (h ++ [⟨t, r⟩]) w where
  faithful := hv.faithful.step heffect
  served k d a hserved := by
    rcases since_append.mp hserved with hnew | ⟨hold, hkept⟩
    · refine ⟨since_append.mpr (.inl hnew), ?_⟩
      cases heffect with
      | @upload d' x b hdeposited =>
        obtain ⟨rfl, rfl, ha⟩ := hnew
        cases hdeposited with
        | refused hx => exact absurd ⟨a, ha⟩ hx
        | failed _ hx => exact absurd ⟨a, ha⟩ hx
        | unfit _ hx => exact absurd ⟨a, ha⟩ hx
        | @stored r plain => exact ⟨⟨.ready, r.hash, plain.length⟩, by simp, rfl⟩
      | _ => exact hnew.elim
    · obtain ⟨hlatest, e, hk, he⟩ := hv.served k d a hold
      rcases heffect.keeps hT hv.faithful.named hk he with hspared | hdeleted
      · exact ⟨since_append.mpr (.inr ⟨hlatest, hspared.untouched⟩), e, hspared.object?.trans hk, he⟩
      · exact absurd hdeleted hkept

theorem Latest.served {h : List Event} {d : Deposit} {a : Answer} (hl : Latest h k d a) : Served h k d a := by
  obtain ⟨before, x, after, rfl, hx, hafter⟩ := hl
  exact ⟨before, x, after, rfl, hx, fun y hy hdeleted => hafter y hy (.inr hdeleted)⟩

/-- What was uploaded, and not deleted since, is ready as it was uploaded. -/
theorem Complete.holds {h : List Event} {d : Deposit} {a : Answer} (hv : Complete h v)
    (hserved : Served h k d a) : ∃ r plain, a = created d.context.order d.session r ∧ Holds v k d r plain := by
  obtain ⟨hlatest, e, hk, he⟩ := hv.served k d a hserved
  obtain ⟨-, d', r, plain, hlatest', hholds⟩ := hv.faithful.ready k e hk he
  obtain ⟨rfl, rfl⟩ := hlatest.unique hlatest'
  exact ⟨r, plain, rfl, hholds⟩

/-! ## Downloads -/

/-- Whether bytes stand for a payload in the coding that an answer names. -/
def Answer.Conveys (a : Answer) (sent plain : Bytes) : Prop :=
  if a.fields.get? Header.contentEncoding = some zstdToken then Zstd.Decodes sent plain else sent = plain

/-- Whether a payload is that of an upload, in the coding that its headers name. -/
def Deposit.Brings (d : Deposit) (plain : Bytes) : Prop :=
  if d.headers.hasToken Header.contentEncoding zstdToken ∧ d.keepCompressed = false then
    Zstd.Decodes d.body.bytes plain
  else plain = d.body.bytes

/-- Whether an answer `b` to a download says what was uploaded: it sends the payload of the upload, with
buffers of any size, and names the length of it and the hash that `a` answered to the upload. -/
def Returns (d : Deposit) (a b : Answer) : Prop :=
  ∃ plain, d.Brings plain ∧ (∀ n, n ≠ 0 → ∃ sent, b.send n = (sent, none) ∧ b.Conveys sent plain) ∧
    b.fields.get? Header.size = some (toString plain.length) ∧
    b.fields.get? Header.hash = a.fields.get? Header.hash

theorem Deposit.brings_iff (d : Deposit) (plain : Bytes) :
    d.Brings plain ↔ d.stages.Plain d.body.bytes plain := by
  have hstages : d.stages.decompress =
      (d.headers.hasToken Header.contentEncoding zstdToken && !d.keepCompressed) := by
    simp [stages, Upload.stagesOf, session, Session.setup]
  rw [Brings, Stages.Plain, hstages]
  cases d.headers.hasToken Header.contentEncoding zstdToken <;> cases d.keepCompressed <;> simp

section Served

variable {order : Metadata.Order} {session : Session} {x : ObjectRecord} {source : Source} {name : String}

theorem get?_created (hid : name ≠ Header.operationId) (hconnection : name ≠ Header.connection)
    (htype : name ≠ Header.contentType) :
    (created order session x).fields.get? name = (x.toFields order).get? name := by
  rw [created, Session.get?_finishFields _ _ hid hconnection, Fields.get?_insert, if_neg htype]

theorem get?_served (hid : name ≠ Header.operationId) (hconnection : name ≠ Header.connection)
    (htype : name ≠ Header.contentType) (htransfer : name ≠ Header.transferEncoding)
    (hencoding : name ≠ Header.contentEncoding) :
    (served order session x source).fields.get? name = (x.toFields order).get? name := by
  simp only [served, Session.get?_finishFields _ _ hid hconnection, Fields.get?_insert, if_neg htransfer]
  split
  · rw [Fields.get?_insert, if_neg hencoding, Fields.get?_insert, if_neg htype]
  · rw [Fields.get?_insert, if_neg htype]

theorem get?_served_contentEncoding : (served order session x source).fields.get? Header.contentEncoding =
    if session.compressOut then some zstdToken else none := by
  have hother : (x.toFields order).get? Header.contentEncoding = none := x.get?_toFields_of_not_mem order (by decide)
  simp only [served]
  rw [Session.get?_finishFields _ _ (by decide) (by decide), Fields.get?_insert, if_neg (by decide)]
  cases session.compressOut with
  | true => rw [if_pos rfl, if_pos rfl, Fields.get?_insert, if_pos rfl]
  | false => rw [if_neg (by decide), if_neg (by decide), Fields.get?_insert, if_neg (by decide), hother]

/-- The bytes of a source are sent in the coding that the answer names. -/
theorem served_conveys (hs : source.Clean) {n : Nat} (hn : n ≠ 0) :
    ∃ sent, (served order session x source).send n = (sent, none) ∧
      (served order session x source).Conveys sent source.bytes := by
  simp only [Answer.Conveys, get?_served_contentEncoding]
  cases hout : session.compressOut with
  | true =>
    refine ⟨Zstd.encode source.bytes, ?_, ?_⟩
    · rw [served, hout]
      exact Outlet.send_compressing hs hn
    · exact Zstd.decodes_encode source.bytes
  | false =>
    refine ⟨source.bytes, ?_, ?_⟩
    · rw [served, hout]
      exact Outlet.send_bare hs hn
    · rfl

end Served

/-- A download of an object that is ready as it was uploaded. -/
theorem Download.Pulled.returns {d : Deposit} {y : ObjectRecord} {plain : Bytes} {session : Session} {x : Ending}
    {order : Metadata.Order} (h : Pulled order session k v x) (hv : Holds v k d y plain) :
    ∃ b, x.answer? = some b ∧ b.status = 200 ∧ Returns d (created d.context.order d.session y) b := by
  cases h with
  | missing _ hnone =>
    cases hv.bytes?.symm.trans (hnone _ hv.object? rfl)
  | @served r source bytes hr _ hbytes hclean hsource =>
    obtain rfl : plain = bytes := Option.some.inj (hv.bytes?.symm.trans hbytes)
    have hentry : (⟨.ready, y.hash, plain.length⟩ : Entry) = r.entry :=
      Option.some.inj (hv.object?.symm.trans hr)
    have hhash : y.hash = r.hash := congrArg Entry.hash hentry
    have hsize : plain.length = r.size := congrArg Entry.size hentry
    subst hsource
    refine ⟨Download.served order session r source, rfl, rfl, source.bytes, (d.brings_iff _).mpr hv.plain,
      fun n hn => served_conveys hclean hn, ?_, ?_⟩
    · rw [get?_served (by decide) (by decide) (by decide) (by decide) (by decide), hsize]
      exact r.get?_toFields_size order
    · rw [get?_served (by decide) (by decide) (by decide) (by decide) (by decide),
        get?_created (by decide) (by decide) (by decide), r.get?_toFields_hash, y.get?_toFields_hash,
        hhash]

/-- What a download answers after a history. -/
structure Answers (h : List Event) (k : Key) (x : Ending) : Prop where
  /-- What was uploaded, and not deleted since, is served as it was uploaded. -/
  served : ∀ d a, Served h k d a → ∃ b, x.answer? = some b ∧ b.status = 200 ∧ Returns d a b
  /-- Nothing else is there. -/
  missing : (¬ ∃ d a, Served h k d a) → ∃ b, x.answer? = some b ∧ b.status = 404

theorem Complete.answers {h : List Event} {order : Metadata.Order} {session : Session} {x : Ending} (hv : Complete h v)
    (hpulled : Pulled order session k v x) : Answers h k x where
  served d a hserved := by
    obtain ⟨r, plain, rfl, hholds⟩ := hv.holds hserved
    exact hpulled.returns hholds
  missing hnone := by
    cases hpulled with
    | @missing _ b hb => exact ⟨b, rfl, hb⟩
    | @served r _ _ hr hready =>
      obtain ⟨-, d, y, plain, hlatest, -⟩ := hv.faithful.ready k r.entry hr hready
      exact absurd ⟨d, _, hlatest.served⟩ hnone

/-- A download after any history that begins with nothing, on a store that erases what it is told to. -/
theorem Contract.pull_answers {σ : Type} {perform : (c : Call) → σ → Reply c.Answer × σ}
    (C : Contract T perform) (hT : ¬ T.MayKeep) {s : σ} (hs : C.Sound s) (hempty : C.view s = .empty)
    (turns : List Turn) (hprompt : ∀ x ∈ (play perform turns s).1, x.result.Prompt) (r : Retrieval) :
    Answers (play perform turns s).1 r.key (r.course.run perform (play perform turns s).2).1 := by
  have hinit : Complete [] (C.view s) := hempty ▸ .empty
  obtain ⟨hsound, hcomplete⟩ := play_induction C Complete (fun _ hv => hv.step hT) [] hs hinit hprompt
  have hpull : r.course.Ensures T
      (fun x w => Pulled r.context.order r.session r.key (C.view (play perform turns s).2) x)
      (C.view (play perform turns s).2) := by
    simp only [Retrieval.course, Program.ensures_bind, Program.ensures_pure]
    exact (Download.ensures_pull rfl rfl).mono fun _ _ h => h.1
  exact hcomplete.answers (C.ensures_run hsound hpull).2

namespace Store

/-- The sizes that the catalog of an engine takes. -/
def terms : Catalog → Terms
  | .memory _ => { MayKeep := False }
  | .table _ => { Fits := (· < Table.sizeBound), MayKeep := False }

/-- After any history of the gateway that begins with an empty catalog and an empty storage in memory, a
download answers 200 if the object was uploaded and not deleted since, and 404 otherwise; and it answers
with what was uploaded. -/
theorem pull_iff_served {engine : String} {c : Catalog} (hc : Catalog.open' engine = .ok c) (limit : Nat)
    (turns : List Turn)
    (hprompt : ∀ x ∈ (play perform turns ⟨c, .memory { limit }⟩).1, x.result.Prompt) (r : Retrieval) :
    let past := play perform turns ⟨c, .memory { limit }⟩
    let x := (r.course.run perform past.2).1
    ((∃ b, x.answer? = some b ∧ b.status = 200) ↔ ∃ d a, Served past.1 r.key d a) ∧
      ((¬ ∃ d a, Served past.1 r.key d a) → ∃ b, x.answer? = some b ∧ b.status = 404) ∧
      ∀ d a, Served past.1 r.key d a → ∃ b, x.answer? = some b ∧ b.status = 200 ∧ Returns d a b := by
  intro past x
  have hengine : c = .memory {} ∨ c = .table {} := by
    rw [Catalog.open'] at hc
    split at hc
    · cases hc
      exact .inr rfl
    · split at hc <;> cases hc
      exact .inl rfl
  have hsound : Sound (terms c) ⟨c, .memory { limit }⟩ := by
    rcases hengine with rfl | rfl
    · exact sound_memory (fun _ => trivial) limit
    · exact sound_table (fun _ => Iff.rfl) limit
  have hkeep : ¬ (terms c).MayKeep := by cases c <;> exact not_false
  have hanswers : Answers past.1 r.key x :=
    (contract (terms c)).pull_answers hkeep hsound (view_empty hengine limit) turns hprompt r
  refine ⟨⟨fun h => ?_, fun ⟨d, a, h⟩ => ?_⟩, hanswers.missing, hanswers.served⟩
  · obtain ⟨b, hb, hstatus⟩ := h
    refine Classical.byContradiction fun hnone => ?_
    obtain ⟨b', hb', hstatus'⟩ := hanswers.missing hnone
    obtain rfl := Option.some.inj (hb.symm.trans hb')
    cases hstatus.symm.trans hstatus'
  · obtain ⟨b, hb, hstatus, -⟩ := hanswers.served d a h
    exact ⟨b, hb, hstatus⟩

/-- A download of an object that was just uploaded into a storage of ten bytes. -/
theorem pull_iff_served_sample :
    let past := play perform Sample.turns ⟨.table {}, .memory { limit := 10 }⟩
    let r : Retrieval := { context := Sample.context, key := Sample.key }
    ∃ a b, Served past.1 Sample.key Sample.deposit a ∧ (r.course.run perform past.2).1.answer? = some b ∧
      b.status = 200 ∧ Returns Sample.deposit a b := by
  intro past r
  have hserved : ∃ a, Served past.1 Sample.key Sample.deposit a :=
    ⟨_, [_], _, [], rfl, ⟨rfl, rfl, rfl, rfl⟩, by simp⟩
  obtain ⟨a, hserved⟩ := hserved
  have hopen : Catalog.open' "sqlite" = .ok (.table {}) := rfl
  obtain ⟨-, -, hserves⟩ := pull_iff_served hopen 10 Sample.turns (by decide) r
  obtain ⟨b, hb, hstatus, hreturns⟩ := hserves Sample.deposit a hserved
  exact ⟨a, b, hserved, hb, hstatus, hreturns⟩

end Store

end Depot
