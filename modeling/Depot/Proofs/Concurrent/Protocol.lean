import Depot.Proofs.Concurrent.Scene
import Depot.Proofs.History

/-!
# The protocols of requests

How far a request gets, and which calls it makes meanwhile. An upload registers a record, writes under the
path of its object, and then has the record say what came of it; a deletion marks the record that it has
found, erases the bytes and marks the record again; a download looks for a record, and opens the bytes.

## Main results

* `Deposit.follows_whole`, `Turn.follows_courses` — every request follows its protocol.
-/

namespace Depot

open Depot.Action
open ObjectResource (Written State isReady uploading)
open Upload (recordedHash)

/-- How far a request got. -/
inductive Phase where
  /-- Nothing has come of the request yet. -/
  | idle
  /-- An upload was not admitted; what was in its way, if it was an object. -/
  | refused (t : Option Status)
  /-- An upload was admitted; the bytes that it has put in place. -/
  | writing (b : Option Bytes)
  /-- An upload has stored a payload. -/
  | ready (plain : Bytes)
  | failed
  /-- A backend that outlived its upload has put bytes in place. -/
  | stray
  /-- A deletion, or a download, has found a record. -/
  | found (r : ObjectRecord)
  /-- A deletion has marked the record. -/
  | erasing (r : ObjectRecord)
  /-- A bucket was marked; the records that were found in it. -/
  | sweeping (l : List ObjectRecord)
  /-- A download was given the bytes of a record, or was not. -/
  | opened (r : ObjectRecord) (a : Reply Source)
  /-- There is nothing left to do. -/
  | ended
  /-- The catalog did not do as it was told. -/
  | lost

/-! ## Uploads -/

namespace Deposit

variable (d : Deposit)

/-- The entry of the upload of a payload. -/
def entry (plain : Bytes) : Entry := ⟨.ready, recordedHash d.session d.stages.digest plain, plain.length⟩

/-- The calls of an upload. -/
def Permits : Phase → Call → Prop
  | .idle, .getBucket name => name = d.key.bucket
  | .idle, .insertObject r => r.key = d.key ∧ r.id = d.context.recordId ∧ r.entry = uploading
  | .writing none, .put path bytes => path = d.key.path ∧ d.stages.Plain d.body.bytes bytes
  | .writing none, .updateObject r => r.key = d.key ∧ r.id = d.context.recordId ∧ r.entry = ObjectResource.failed
  | .writing (some plain), .updateObject r =>
    r.key = d.key ∧ r.id = d.context.recordId ∧ (r.entry = ObjectResource.failed ∨ r.entry = d.entry plain)
  | .lost, .updateObject r => r.key = d.key ∧ r.id = d.context.recordId ∧ r.status = .uploadFailed
  | .writing none, c | .failed, c | .stray, c | .lost, c => c.Writes d.key.path
  | _, _ => False

/-- How far a reply gets an upload. -/
def next : Phase → (c : Call) → Reply c.Answer → Phase
  | .idle, .getBucket _, a => if isReady a then .idle else .refused none
  | .idle, .insertObject _, .ok none => .writing none
  | .idle, .insertObject _, .ok (some t) => .refused (some t)
  | .idle, .insertObject _, _ => .refused none
  | .writing none, .put _ bytes, .ok _ => .writing (some bytes)
  | .writing b, .updateObject r, .ok _ => if r.status = .ready then .ready (b.getD []) else .failed
  | .writing _, .updateObject _, _ => .lost
  | .lost, .updateObject _, .ok _ => .failed
  | .lost, .put _ _, .ok _ | .failed, .put _ _, .ok _ => .stray
  | p, _, _ => p

/-- The protocol of an upload. -/
def protocol : Protocol Phase := ⟨d.Permits, next⟩

/-- How an upload ends. -/
def Ends (x : Ending × Upload State Written) : Phase → Prop
  | .refused none | .failed | .lost => ¬ x.1.Created
  | .refused (some t) =>
    (∃ a, x.1.answer? = some a ∧ a.status = if t = .upload then 406 else 409) ∧
      x.2.stream.started = false ∧ x.2.stream.pipeline.source = d.body
  | .ready _ => x.1.Created
  | .stray => ¬ x.1.Created ∧ x.2.stream.barrier = .failed .timedOut
  | _ => False

/-- Run an upload to its end, let its consumer go on if it has not come to its own, and see what the upload
itself has come to. -/
def whole : Program (Ending × Upload State Written) := do
  let x ← Upload.run (ObjectResource.hooks d.context d.write) d.settings d.session d.key
    (.ofHeaders d.headers) d.body
  let _ ← x.2.linger
  return x

variable {d}

/-- What the calls of its storage mean for an upload. -/
theorem stores_meaning : d.protocol.meaning.Stores d.key.path (d.stages.Plain d.body.bytes) (.writing none)
    fun bytes => .writing (some bytes) where
  intake hK := ⟨rfl, fun r => hK r⟩
  stage hK := ⟨rfl, fun r => hK r⟩
  put hplain hok hfails := ⟨⟨rfl, hplain⟩, fun r => by
    cases r with
    | ok n => exact hok n
    | failed e => exact hfails (.failed e) (by simp)
    | crashed m => exact hfails (.crashed m) (by simp)⟩

/-- A backend that outlives its upload writes under the path of the object, and does nothing else. -/
theorem keeps_meaning : d.protocol.meaning.Keeps d.key.path fun p => p = .failed ∨ p = .stray ∨ p = .lost := by
  rintro c K p hp hc hK
  cases c <;> first | exact hc.elim | skip
  · rcases hp with rfl | rfl | rfl <;> exact ⟨hc, fun r => hK _ _ (by simp [protocol, next])⟩
  · rcases hp with rfl | rfl | rfl <;> exact ⟨hc, fun r => hK _ _ (by simp [protocol, next])⟩
  · rcases hp with rfl | rfl | rfl <;> exact ⟨hc, fun r => hK _ _ (by cases r <;> simp [protocol, next])⟩

section Follows

variable {u : Upload State Written} {p : Phase} {r : ObjectRecord} {t : Trouble}

/-- What is left of an upload once it was concluded. -/
def Lingers (d : Deposit) (x : Ending × Upload State Written) (p : Phase) : Prop :=
  x.2.linger.wp d.protocol.meaning (fun _ q => d.Ends x q) p

theorem lingers_of_over {x : Ending × Upload State Written}
    (hu : ∀ p, x.2.progress = some p → p.result?.isSome = true) (hx : d.Ends x p) : d.Lingers x p :=
  Upload.wp_linger_of_over hu hx

theorem wp_finish_refused (hs : u.resource.settled = true) (hu : u.progress = none)
    (h : ∀ x, Upload.GaveUp t u (.ok ()) x → d.Ends x p) :
    (Upload.finish (ObjectResource.hooks d.context d.write) d.settings d.session d.key (.error t, u)).wp
      d.protocol.meaning d.Lingers p := by
  refine Upload.wp_finish_error (ObjectResource.wp_markFailed_settled hs fun x hx => ?_)
  refine lingers_of_over (fun q hq => ?_) (h x hx)
  rw [hx.kept.progress, hu] at hq
  cases hq

/-- The record of the upload of `d`, before anything came of it. -/
structure Registered (d : Deposit) (u : Upload State Written) (r : ObjectRecord) : Prop where
  unsettled : ObjectResource.Unsettled u.resource d.key r
  id : r.id = d.context.recordId
  entry : r.entry = uploading

theorem Registered.permits_failed (hr : d.Registered u r) (b : Option Bytes) :
    d.Permits (.writing b) (.updateObject (r.turn .uploadFailed)) := by
  have hentry : (r.turn .uploadFailed).entry = ObjectResource.failed := by simp [hr.entry, ObjectResource.failed]
  cases b with
  | none => exact ⟨hr.unsettled.key, hr.id, hentry⟩
  | some plain => exact ⟨hr.unsettled.key, hr.id, .inl hentry⟩

/-- Concluding an upload that got nothing stored. -/
theorem wp_conclude_failing (hr : d.Registered u r)
    (hu : u.stream.barrier = .pending ∧ (∀ q, u.progress = some q → q.Within d.key.path) ∨
      ∃ x, u.progress = some (.finished x) ∧ ∀ n, x ≠ .stored n) :
    (Upload.conclude (ObjectResource.hooks d.context d.write) d.settings d.session d.key u).wp
      d.protocol.meaning d.Lingers (.writing none) := by
  refine Upload.wp_conclude_failing hr.unsettled (hu.imp_left And.left) ⟨hr.permits_failed none, fun a x hx => ?_⟩
  obtain ⟨q, hq, hnext⟩ : ∃ q, (q = .failed ∨ q = .lost) ∧
      next (.writing none) (.updateObject (r.turn .uploadFailed)) a = q := by
    cases a with
    | ok _ => exact ⟨_, .inl rfl, rfl⟩
    | failed _ | crashed _ => exact ⟨_, .inr rfl, rfl⟩
  change d.Lingers x (next _ _ _)
  rw [hnext]
  rcases hu with ⟨hpending, hwithin⟩ | ⟨y, hfinished, -⟩
  · have hkept : x.2.linger.wp d.protocol.meaning (fun _ p => p = .failed ∨ p = .stray ∨ p = .lost) q :=
      Upload.wp_linger keeps_meaning (fun p hp => hwithin p (hx.progress ▸ hp)) (by grind)
    refine hkept.mono fun _ p hp => ?_
    rcases hp with rfl | rfl | rfl
    · exact hx.created
    · exact ⟨hx.created, hx.timedOut hpending⟩
    · exact hx.created
  · refine lingers_of_over (fun p hp => ?_) ?_
    · obtain rfl := Option.some.inj ((hx.progress.trans hfinished).symm.trans hp)
      rfl
    · rcases hq with rfl | rfl <;> exact hx.created

/-- Concluding an upload whose payload is stored. -/
theorem wp_conclude_stored {n : Nat} {plain : Bytes} (hr : d.Registered u r) (hdigest : u.digest = d.stages.digest)
    (hu : u.progress = some (.finished (.stored n))) (hb : u.stream.barrier = .completing d.stages plain) :
    (Upload.conclude (ObjectResource.hooks d.context d.write) d.settings d.session d.key u).wp
      d.protocol.meaning d.Lingers (.writing (some plain)) := by
  have hover : ∀ {x : Upload State Written}, x.progress = u.progress →
      ∀ p, x.progress = some p → p.result?.isSome = true := by
    intro x hx p hp
    obtain rfl := Option.some.inj ((hx.trans hu).symm.trans hp)
    rfl
  have hunmarked : d.protocol.meaning.pre
      (.updateObject ((Upload.completed r d.session d.stages plain).turn .uploadFailed))
      (fun _ p => ∀ x, Upload.Failing u x → d.Lingers x p) .lost := by
    refine ⟨⟨hr.unsettled.key, hr.id, rfl⟩, fun a x hx => lingers_of_over (hover hx.progress) ?_⟩
    cases a <;> exact hx.created
  refine Upload.wp_conclude_stored hr.unsettled hdigest hu hb ⟨⟨hr.unsettled.key, hr.id, .inr rfl⟩, fun a => ?_⟩
  cases a with
  | ok _ => exact fun u' hu' => lingers_of_over (hover hu') ⟨_, rfl, rfl⟩
  | failed _ | crashed _ => exact hunmarked

/-- A whole upload follows its protocol. -/
theorem follows_whole (d : Deposit) : d.whole.wp d.protocol.meaning d.Ends .idle := by
  simp only [whole, Program.wp_bind, Program.wp_pure]
  refine Upload.wp_run rfl ?_
  rw [Upload.accept, wp_bind]
  refine Upload.wp_prepare rfl ?_
  simp only [Upload.hook, wp_bind, wp_zoom, ObjectResource.hooks]
  refine ObjectResource.wp_accept rfl ⟨rfl, fun a => ?_⟩
  show if isReady a = true then _ else _
  cases ha : isReady a with
  | false =>
    rw [if_neg Bool.false_ne_true]
    have hnext : d.protocol.next .idle (.getBucket d.key.bucket) a = .refused none := by
      simp [protocol, next, ha]
    rw [hnext]
    exact fun t ht => wp_finish_refused rfl rfl fun x hx => hx.plain ht
  | true =>
    rw [if_pos rfl]
    have hnext : d.protocol.next .idle (.getBucket d.key.bucket) a = .idle := by simp [protocol, next, ha]
    rw [hnext]
    refine ⟨⟨rfl, rfl, rfl⟩, fun a s' => ?_⟩
    rcases a with (_ | t) | e | m
    · -- the upload is admitted, and its consumer runs
      intro hs
      simp only [wp_get, wp_ofProgram, Upload.adopt, wp_modify]
      refine Consumer.wp_drive rfl d.stores (Stream.held_start d.body _) False.elim stores_meaning
        (fun h _ hwithin hpending => ?_) (fun h x hfinished hx _ => ?_) fun h n plain hfinished _ hb => ?_
      · refine wp_conclude_failing ⟨hs, rfl, rfl⟩ (.inl ⟨hpending, fun q hq => ?_⟩)
        obtain rfl := Option.some.inj hq
        exact hwithin
      · exact wp_conclude_failing ⟨hs, rfl, rfl⟩ (.inr ⟨x, congrArg some hfinished, hx⟩)
      · exact wp_conclude_stored ⟨hs, rfl, rfl⟩ rfl (congrArg some hfinished) hb
    · intro hs
      refine wp_finish_refused hs rfl fun x hx => ?_
      obtain ⟨a, ha, hstatus⟩ := hx.answer _ rfl rfl
      obtain ⟨hstarted, hpipeline⟩ := hx.unread rfl
      exact ⟨⟨a, ha, hstatus.trans (ObjectResource.status_occupied _ t)⟩, hstarted,
        congrArg Pipeline.source hpipeline⟩
    all_goals exact fun t ht hs => wp_finish_refused hs rfl fun x hx => hx.plain ht

end Follows

end Deposit

/-! ## Single calls -/

namespace Protocol

variable {φ ρ : Type} {P : Protocol φ} {p : φ} {s : ρ} (c : Call)

/-- A permitted call has an answer, or the request stops there. -/
theorem wp_called {Q : Except Trouble c.Answer → ρ → φ → Prop} (hp : P.Permits p c)
    (hok : ∀ x, Q (.ok x) s (P.next p c (.ok x))) (hstop : ∀ t q, Q (.error t) s q) :
    Action.wp P.meaning Q (call c) s p := by
  refine (wp_call c).mpr ⟨hp, fun a => ?_⟩
  cases a with
  | ok x => exact hok x
  | failed e => exact hstop _ _
  | crashed m => exact hstop _ _

/-- A permitted call that may fail stops the request only if it crashes. -/
theorem wp_attempted {Q : Except Trouble (Except StoreError c.Answer) → ρ → φ → Prop} (hp : P.Permits p c)
    (hok : ∀ x, Q (.ok (.ok x)) s (P.next p c (.ok x)))
    (hfailed : ∀ e, Q (.ok (.error e)) s (P.next p c (.failed e))) (hstop : ∀ t q, Q (.error t) s q) :
    Action.wp P.meaning Q (attempt c) s p := by
  refine (wp_attempt c).mpr ⟨hp, fun a => ?_⟩
  cases a with
  | ok x => exact hok x
  | failed e => exact hfailed e
  | crashed m => exact hstop _ _

end Protocol

/-! ## Other requests -/

namespace Turn

open Protocol (wp_called wp_attempted)

variable {k : Key} {name : String} {p : Phase}

/-- The protocol of deleting an object. -/
def deletion (k : Key) : Protocol Phase where
  Permits
    | .idle, .getObject l => l = k
    | .found r, .updateObject r' => r' = r.turn .deleting
    | .erasing _, .eraseBytes path => path = k.path
    | .erasing r, .updateObject r' => r' = r.turn .deleted ∨ r' = r.turn .deletionFailed
    | _, _ => False
  next
    | .idle, .getObject _, .ok (some r) => .found r
    | .found r, .updateObject _, .ok _ => .erasing r
    | .found _, .updateObject _, _ | .erasing _, .updateObject _, _ => .ended
    | p, _, _ => p

/-- The protocol of creating a bucket. -/
def creation (name : String) : Protocol Phase where
  Permits
    | .idle, .makeContainer bucket => bucket = name
    | .idle, .createBucket r => r.name = name ∧ r.status = .ready
    | _, _ => False
  next p _ _ := p

/-- The protocol of deleting a bucket. -/
def removal (name : String) : Protocol Phase where
  Permits
    | .idle, .getBucket bucket | .idle, .listObjects bucket _ => bucket = name
    | .idle, .setBucketStatus bucket t => bucket = name ∧ t = .deleting
    | .sweeping _, .eraseContainer bucket | .sweeping _, .listObjects bucket _ => bucket = name
    | .sweeping l, .updateObject r => ∃ x ∈ l, r = x.turn .deleted
    | .sweeping _, .setBucketStatus bucket t => bucket = name ∧ (t = .deleted ∨ t = .deletionFailed)
    | _, _ => False
  next
    | .idle, .setBucketStatus _ _, .ok _ => .sweeping []
    | .idle, .setBucketStatus _ _, _ | .sweeping _, .setBucketStatus _ _, _ => .ended
    | .sweeping _, .listObjects _ _, .ok l => .sweeping l
    | p, _, _ => p

/-- The protocol of downloading an object. -/
def retrieval (k : Key) : Protocol Phase where
  Permits
    | .idle, .getObject l => l = k
    | .found _, .hasBytes path | .found _, .openBytes path => path = k.path
    | _, _ => False
  next
    | .idle, .getObject _, .ok (some r) => if r.status = .ready then .found r else .ended
    | .idle, .getObject _, .ok none | .found _, .hasBytes _, .ok false => .ended
    | .found r, .hasBytes _, .ok true => .found r
    | .found r, .openBytes _, a => .opened r a
    | .idle, .getObject _, _ | .found _, .hasBytes _, _ => .lost
    | p, _, _ => p

/-- The protocol of a request. -/
def protocol : Turn → Protocol Phase
  | createBucket name _ _ => creation name
  | deleteBucket name => removal name
  | deleteObject k => deletion k
  | upload d => d.protocol
  | pull r => retrieval r.key

/-- How a request ends. -/
def Ends : Turn → Result → Phase → Prop
  | upload d, .upload e b, p => ∃ u, d.Ends (e, u) p ∧ u.stream.barrier = b
  | pull _, .pull e, .ended => ∃ a, e.answer? = some a ∧ a.status = 404
  | pull r, .pull e, .opened x (.ok source) => e = .answered (Download.served r.context.order r.session x source)
  | pull _, .pull _, .opened _ _ | pull _, .pull _, .lost => True
  | upload _, _, _ | pull _, _, _ => False
  | _, _, _ => True

/-- A deletion that has found a record. -/
theorem follows_erase (k : Key) (r : ObjectRecord) :
    (ObjectResource.erase k r).wp (deletion k).meaning (fun _ _ _ => True) () (.found r) := by
  simp only [ObjectResource.erase, wp_bind]
  refine wp_called (.updateObject _) rfl (fun _ => ?_) fun _ _ => trivial
  refine wp_attempted (.eraseBytes _) rfl (fun _ => ?_) (fun _ => ?_) fun _ _ => trivial
  · simp only [wp_bind]
    exact wp_called (.updateObject _) (.inl rfl) (fun _ => trivial) fun _ _ => trivial
  · simp only [wp_bind]
    exact wp_called (.updateObject _) (.inr rfl) (fun _ => trivial) fun _ _ => trivial

theorem follows_delete (k : Key) :
    (ObjectResource.delete k).wp (deletion k).meaning (fun _ _ _ => True) () .idle := by
  simp only [ObjectResource.delete, ObjectResource.info, wp_bind]
  refine wp_called (.getObject k) rfl (fun r => ?_) fun _ _ => trivial
  cases r with
  | none => trivial
  | some r =>
    simp only [wp_pure]
    split
    any_goals exact follows_erase k r
    all_goals trivial

theorem follows_create (name site : String) (now : Instant) : (BucketResource.create name site now).wp
    (creation name).meaning (fun _ _ _ => True) () .idle := by
  cases hname : isBucketName name with
  | false =>
    rw [BucketResource.create, checkBucketName, hname]
    trivial
  | true =>
    rw [BucketResource.create, checkBucketName, hname, if_pos rfl]
    simp only [wp_bind]
    refine wp_called (.makeContainer name) rfl (fun _ => ?_) fun _ _ => trivial
    exact wp_called (.createBucket _) ⟨rfl, rfl⟩ (fun t => by cases t <;> trivial) fun _ _ => trivial

theorem follows_sweep (name : String) {all l : List ObjectRecord} (hl : ∀ r ∈ l, r ∈ all)
    {Q : Except Trouble Unit → Unit → Phase → Prop} (hQ : ∀ a, Q a () (.sweeping all)) :
    (BucketResource.sweep l).wp (removal name).meaning Q () (.sweeping all) := by
  induction l with
  | nil => exact hQ _
  | cons r rest ih =>
    obtain ⟨hr, hrest⟩ := List.forall_mem_cons.mp hl
    rw [BucketResource.sweep]
    split
    · simp only [wp_bind, wp_updateObject]
      refine ⟨⟨r, hr, rfl⟩, fun a => ?_⟩
      cases a with
      | ok _ => exact ih hrest
      | failed _ | crashed _ => exact hQ _
    · exact ih hrest

theorem follows_remove (name : String) :
    (BucketResource.delete name).wp (removal name).meaning (fun _ _ _ => True) () .idle := by
  simp only [BucketResource.delete, BucketResource.info, wp_bind]
  refine wp_called (.getBucket name) rfl (fun r => ?_) fun _ _ => trivial
  cases r with
  | none => trivial
  | some r =>
    dsimp only
    split
    · trivial
    simp only [wp_pure]
    split
    · trivial
    simp only [wp_bind]
    refine wp_called (.listObjects name _) rfl (fun live => ?_) fun _ _ => trivial
    dsimp only
    split
    · trivial
    simp only [wp_bind]
    refine wp_called (.setBucketStatus name _) ⟨rfl, rfl⟩ (fun _ => ?_) fun _ _ => trivial
    refine wp_attempted (.eraseContainer name) rfl (fun _ => ?_) (fun _ => ?_) fun _ _ => trivial
    · simp only [wp_bind]
      refine wp_called (.listObjects name _) rfl (fun l => ?_) fun _ _ => trivial
      refine follows_sweep name (fun _ hr => hr) fun a => ?_
      cases a with
      | error _ => trivial
      | ok _ => exact wp_called (.setBucketStatus name _) ⟨rfl, .inl rfl⟩ (fun _ => trivial) fun _ _ => trivial
    · simp only [wp_bind]
      exact wp_called (.setBucketStatus name _) ⟨rfl, .inr rfl⟩ (fun _ => trivial) fun _ _ => trivial

theorem follows_pull (r : Retrieval) :
    r.course.wp (retrieval r.key).meaning (fun e => Ends (.pull r) (.pull e)) .idle := by
  simp only [Retrieval.course, Program.wp_bind, Program.wp_pure]
  rw [Download.pull, Program.wp_bind, wp_start, wp_bind]
  simp only [ObjectResource.hooks, ObjectResource.readable, wp_bind, wp_call]
  refine ⟨rfl, fun a => ?_⟩
  rcases a with (_ | x) | _ | _
  · refine Download.wp_finish rfl _ ?_
    rintro _ ⟨a, ha, rfl⟩
    exact ⟨a, rfl, ha⟩
  · by_cases hready : x.status = .ready
    · have hnext : (retrieval r.key).next .idle (.getObject r.key) (.ok (some x)) = .found x := if_pos hready
      simp only [Reply.called_ok, hnext]
      rw [if_neg (by simpa using hready)]
      simp only [wp_bind, wp_call]
      refine ⟨rfl, fun a => ?_⟩
      rcases a with (_ | _) | _ | _
      · refine Download.wp_finish rfl _ ?_
        rintro _ ⟨a, ha, rfl⟩
        exact ⟨a, rfl, ha⟩
      · simp only [Reply.called_ok, Bool.not_true, Bool.false_eq_true, if_false, if_true, wp_bind, wp_modify, wp_pure]
        refine Download.wp_streamOut rfl rfl ⟨rfl, fun a => ?_⟩
        cases a with
        | ok source =>
          refine Download.wp_finish rfl _ ?_
          rintro _ rfl
          exact rfl
        | failed _ | crashed _ => exact fun t => Download.wp_finish rfl _ fun _ _ => trivial
      · exact Download.wp_finish rfl _ fun _ _ => trivial
      · exact Download.wp_finish rfl _ fun _ _ => trivial
    · have hnext : (retrieval r.key).next .idle (.getObject r.key) (.ok (some x)) = .ended := if_neg hready
      simp only [Reply.called_ok, hnext]
      rw [if_pos hready]
      refine Download.wp_finish rfl _ ?_
      rintro _ ⟨a, ha, rfl⟩
      exact ⟨a, rfl, ha⟩
  · exact Download.wp_finish rfl _ fun _ _ => trivial
  · exact Download.wp_finish rfl _ fun _ _ => trivial

/-- Every request follows its protocol. -/
theorem follows_course (t : Turn) : t.course.wp t.protocol.meaning t.Ends .idle := by
  cases t with
  | createBucket name site now =>
    simp only [course, Program.wp_bind, Program.wp_pure, wp_start]
    exact follows_create name site now
  | deleteBucket name =>
    simp only [course, Program.wp_bind, Program.wp_pure, wp_start]
    exact follows_remove name
  | deleteObject k =>
    simp only [course, Program.wp_bind, Program.wp_pure, wp_start]
    exact follows_delete k
  | upload d =>
    have hwhole := d.follows_whole
    simp only [Deposit.whole, Program.wp_bind, Program.wp_pure] at hwhole
    simp only [course, Deposit.course, Program.wp_bind, Program.wp_pure]
    exact hwhole.mono fun x p h => h.mono fun _ q hq => ⟨x.2, hq, rfl⟩
  | pull r =>
    simp only [course, Program.wp_bind, Program.wp_pure]
    exact follows_pull r

/-- Requests that have not made any calls yet. -/
theorem follows_courses {ι σ : Type} (t : ι → Turn) (s : σ) :
    Scene.Follows (fun i => (t i).protocol) (fun i => (t i).Ends) { tasks := fun i => (t i).course, store := s }
      fun _ => .idle :=
  fun i => (t i).follows_course

end Turn

end Depot
