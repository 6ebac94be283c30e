import Depot.Proofs.Consumer
import Depot.Proofs.Resource.Removal
import Depot.Resource.Object

/-!
# Uploading an object

What an upload makes of a store, from its admission to its answer. However it ends, the record that it
registered ends with it: the object is ready and its bytes are in place, or the upload has failed.

## Main results

* `Upload.ensures_run` — an upload that did not time out, from its beginning to its end.
-/

namespace Depot

open Depot.Action ObjectResource

/-- Whether an ending says that something was created. -/
def Ending.Created (e : Ending) : Prop := ∃ a, e.answer? = some a ∧ a.status = 201

/-- Whether trouble is not answered as if something had been created. -/
def Trouble.IsPlain (t : Trouble) : Prop := ∀ e, t = .refused e → e.status ≠ 201

namespace ObjectResource

variable {T : Terms} {v : Snapshot} {s : State} {k : Key} {r : ObjectRecord}

/-- Whether a request has registered a record that is not settled yet. -/
structure Unsettled (s : State) (k : Key) (r : ObjectRecord) : Prop where
  settled : s.settled = false
  record : s.record = some r
  key : r.key = k

section Marking

variable {S : Type} {M : Meaning S} {w : S}

theorem wp_markFailed_settled (hs : s.settled = true) {Q : Except Trouble Unit → State → S → Prop}
    (h : Q (.ok ()) s w) : markFailed.wp M Q s w := by
  rw [markFailed]
  simp [hs, h]

/-- A record is marked once, and that it cannot be marked is no reason to refuse anything. -/
theorem wp_markFailed (hs : Unsettled s k r) {Q : Except Trouble Unit → State → S → Prop}
    (h : M.pre (.updateObject (r.turn .uploadFailed)) (fun _ w' => ∀ x s', (∀ e, x ≠ .error (.refused e)) →
      s'.settled = true → Q x s' w') w) : markFailed.wp M Q s w := by
  obtain ⟨hsettled, hrecord, rfl⟩ := hs
  rw [markFailed]
  simp only [wp_bind, wp_get, hsettled, hrecord, Bool.not_false, if_true, wp_set, wp_discard, wp_attempt]
  refine M.mono (fun a w' h => h _ _ (fun e => ?_) rfl) h
  cases a <;> simp [Reply.attempted, Except.map]

end Marking

/-! ## Admission -/

/-- Whether a store can take in an object. -/
def Free (k : Key) (v : Snapshot) : Prop :=
  (v.object? k).all (·.status.isReplaceable) = true ∧ v.bucket? k.bucket = some .ready

/-- The entry of an upload under way. -/
def uploading : Entry := ⟨.upload, none, 0⟩

@[simp] theorem entry_newRecord (c : Context) (s : State) (k : Key) : (newRecord c s k).entry = uploading := rfl

@[simp] theorem key_newRecord (c : Context) (s : State) (k : Key) : (newRecord c s k).key = k := rfl

@[simp] theorem bucket_newRecord (c : Context) (s : State) (k : Key) : (newRecord c s k).bucket = k.bucket := rfl

/-- Whether a bucket was found that is ready. -/
def isReady : Reply (Option BucketRecord) → Bool
  | .ok r => r.any (·.status == .ready)
  | _ => false

/-- Why an upload is refused where there is an object. -/
def occupied (k : Key) : Status → TransferError
  | .upload => .notAcceptable s!"object already in creation: {k.path}"
  | t => .alreadyExists s!"object already exists: {k.path}, status {t.name}"

theorem status_occupied (k : Key) (t : Status) :
    (occupied k t).status = if t = .upload then 406 else 409 := by
  cases t <;> rfl

theorem occupied_isPlain (k : Key) (t : Status) : (Trouble.refused (occupied k t)).IsPlain := by
  rintro _ ⟨⟩
  rw [status_occupied]
  split <;> decide

theorem wp_accept {S : Type} {M : Meaning S} {w : S} {c : Context} {write : String → Consumer Written}
    (hs : s.settled = true) {Q : Except Trouble (Consumer Written) → State → S → Prop}
    (h : M.pre (.getBucket k.bucket) (fun a w' =>
      if isReady a = true then M.pre (.insertObject (newRecord c s k)) (fun (a : Reply (Option Status)) w' => ∀ s',
        match a with
        | .ok none => Unsettled s' k (newRecord c s k) → Q (.ok (write k.path)) s' w'
        | .ok (some t) => s'.settled = true → Q (.error (.refused (occupied k t))) s' w'
        | _ => ∀ t, t.IsPlain → s'.settled = true → Q (.error t) s' w') w'
      else ∀ t, t.IsPlain → Q (.error t) s w') w) : (accept c k write).wp M Q s w := by
  simp only [accept, hasBucket, wp_bind, wp_call, wp_pure]
  refine M.mono (fun a w' h => ?_) h
  rcases a with x | e | m
  · cases hx : x.any (·.status == .ready) with
    | false =>
      rw [isReady, hx] at h
      simp only [Reply.called_ok, hx]
      exact h _ (by simp [Trouble.IsPlain, bucketMissing, TransferError.status])
    | true =>
      rw [isReady, hx, if_pos rfl] at h
      simp only [Reply.called_ok, hx, Bool.not_true, Bool.false_eq_true, if_false, wp_bind, wp_get,
        wp_modify, wp_call]
      refine M.mono (fun a w'' h => ?_) h
      rcases a with (_ | t) | e | m
      · exact h _ ⟨rfl, rfl, rfl⟩
      · have ht := h { s with metadata := [] } hs
        cases t <;> exact ht
      · exact h _ _ (by simp [Trouble.IsPlain, TransferError.status]) hs
      · exact h _ _ (by simp [Trouble.IsPlain]) hs
  · exact h _ (by simp [Trouble.IsPlain, TransferError.status])
  · exact h _ (by simp [Trouble.IsPlain])

theorem ensures_accept {c : Context} {write : String → Consumer Written} (hs : s.settled = true)
    {Q : Except Trouble (Consumer Written) → State → Snapshot → Prop}
    (hrefused : ∀ t s', t.IsPlain → s'.settled = true → Q (.error t) s' v)
    (hok : ∀ s' r, Unsettled s' k r → r.entry = uploading → T.Fits 0 → Free k v →
      Q (.ok (write k.path)) s' (v.setObject k uploading)) :
    (accept c k write).Ensures T Q s v := by
  refine ensures_iff_wp.mpr (wp_accept hs ?_)
  rintro a w ⟨x, rfl, -, rfl⟩
  split
  · rintro a w (⟨hfree, hready, hfits, rfl, rfl⟩ | ⟨t, -, -, rfl, rfl⟩ | ⟨e, rfl, rfl⟩) s'
    · exact fun hs' => hok s' _ hs' rfl hfits ⟨hfree, hready⟩
    · exact hrefused _ s' (occupied_isPlain k t)
    · exact fun t => hrefused t s'
  · exact fun t ht => hrefused t s ht hs

/-- The entry of an upload that failed. -/
def failed : Entry := uploading.turn .uploadFailed

end ObjectResource

namespace Upload

/-! ## The end -/

variable {T : Terms} {v : Snapshot} {k : Key} {c : Context} {write : String → Consumer Written}
  {settings : Settings} {session : Session} {u u' : Upload State Written} {R : Snapshot → Prop}

/-- An upload that differs in the resource at most, once its barrier was fired. -/
structure Kept (u u' : Upload State Written) : Prop where
  progress : u'.progress = u.progress
  barrier : u.stream.barrier ≠ .pending → u'.stream.barrier = u.stream.barrier

theorem barrier_abandon {s : Stream} (hs : s.barrier ≠ .pending) :
    (abandon settings s).barrier = s.barrier := by
  rw [abandon]
  split
  · rw [Stream.drainFor]
    split
    · rfl
    · rw [Stream.drain, Stream.fire_of_fired hs, Stream.discard]
      dsimp only
      split <;> rfl
  · rw [Stream.abort, Stream.fire_of_fired hs]

theorem barrier_abort {s : Stream} (hs : s.barrier ≠ .pending) : s.abort.2.barrier = s.barrier := by
  rw [Stream.abort, Stream.fire_of_fired hs]

/-- What becomes of an upload that ran into trouble: its stream is not read if it was not begun before, and
an answer says what the trouble was. -/
structure GaveUp (t : Trouble) (u : Upload State Written) (released : Except Trouble Unit)
    (x : Ending × Upload State Written) : Prop where
  kept : Kept u x.2
  unread : u.stream.started = false →
    x.2.stream.started = false ∧ x.2.stream.pipeline = u.stream.pipeline
  answer : ∀ e, t = .refused e → released = .ok () → ∃ a, x.1.answer? = some a ∧ a.status = e.status
  plain : t.IsPlain → ¬ x.1.Created

theorem abort_fields (s : Stream) : s.abort.2.started = s.started ∧ s.abort.2.pipeline = s.pipeline := by
  simp only [Stream.abort, Stream.fire]
  split <;> exact ⟨rfl, rfl⟩

theorem not_created_crashed (m : String) : ¬ (Ending.crashed m).Created := by
  rintro ⟨a, ha, -⟩
  cases ha

theorem not_created_andThen {e : Ending} (he : ¬ e.Created) (released : Except Trouble Unit) :
    ¬ (e.andThen released).Created := by
  rcases released with (_ | m) | _
  · exact he
  · exact not_created_crashed m
  · exact he

section End

variable {S : Type} {M : Meaning S} {w : S} {Q : Ending × Upload State Written → S → Prop}

theorem wp_finish_ok {a : Answer} (hs : u.resource.settled = true)
    (h : ∀ u', Kept u u' → Q (.answered a, u') w) :
    (finish (hooks c write) settings session k (.ok a, u)).wp M Q w := by
  simp only [finish, Program.wp_bind, Program.wp_pure, wp_start, hook, wp_zoom, hooks]
  exact wp_markFailed_settled hs (h _ ⟨rfl, barrier_abort⟩)

theorem wp_finish_error {t : Trouble}
    (h : markFailed.wp M (fun released _ w' => ∀ x, GaveUp t u released x → Q x w') u.resource w) :
    (finish (hooks c write) settings session k (.error t, u)).wp M Q w := by
  cases t with
  | crashed m =>
    simp only [finish, Program.wp_bind, Program.wp_pure, wp_start, hook, wp_zoom, hooks]
    refine h.mono fun released s w' h => h _ ⟨⟨rfl, barrier_abort⟩, fun hs => ?_, fun e he => ?_, fun _ => ?_⟩
    · exact ⟨(abort_fields _).1.trans hs, (abort_fields _).2⟩
    · cases he
    · exact not_created_andThen (not_created_crashed m) released
  | refused e =>
    simp only [finish, fail, Program.wp_bind, Program.wp_pure, wp_start, hook, wp_bind, wp_modify, wp_zoom,
      hooks, wp_pure]
    refine h.mono fun released s w' h => h _ ⟨⟨rfl, fun hb => ?_⟩, fun hs => ?_, fun x hx hr => ?_, fun ht => ?_⟩
    · have hkept : (abandon settings u.stream).barrier = u.stream.barrier := barrier_abandon hb
      rw [← hkept] at hb ⊢
      exact barrier_abort hb
    · have habandon : abandon settings u.stream = u.stream.abort.2 := by
        rw [abandon, hs]
        rfl
      simp only [habandon, abort_fields, hs, and_self]
    · cases hx
      subst hr
      exact ⟨_, rfl, rfl⟩
    · refine not_created_andThen ?_ released
      rintro ⟨a, ha, hstatus⟩
      cases ha
      exact ht e rfl hstatus

end End

/-! ## Completion -/

/-- The answer to an upload that became a record. -/
def created (order : Metadata.Order) (session : Session) (r : ObjectRecord) : Answer where
  status := 201
  fields := session.finishFields ((r.toFields order).insert Header.contentType jsonType)
  payload := .json r.toJson.sorted

/-- The hash that is recorded of a payload. -/
def recordedHash (session : Session) (digest : Bool) (plain : Bytes) : Option String :=
  if digest then some (Base32.encode (Sha256.digest plain)) else session.declaredHash

/-- What has become of a store that held `v` when an object was to be uploaded. -/
inductive Deposited (T : Terms) (order : Metadata.Order) (session : Session) (st : Stages) (body : Source) (k : Key)
    (v : Snapshot) : Ending → Snapshot → Prop
  /-- The upload was not admitted. -/
  | refused {e : Ending} (he : ¬ e.Created) : Deposited T order session st body k v e v
  /-- The upload failed. -/
  | failed {e : Ending} (hfree : Free k v) (he : ¬ e.Created) :
      Deposited T order session st body k v e (v.setObject k failed)
  /-- The catalog could not take the size of the payload. -/
  | unfit {e : Ending} {plain : Bytes} (hfree : Free k v) (he : ¬ e.Created)
      (hsize : ¬ T.Fits plain.length) (hplain : st.Plain body.bytes plain) : Deposited T order session st body k v e
        ((v.setObject k uploading).setBytes k.path (some plain))
  /-- The object is ready. -/
  | stored {r : ObjectRecord} {plain : Bytes} (hfree : Free k v) (hplain : st.Plain body.bytes plain)
      (hhash : r.hash = recordedHash session st.digest plain) (hsize : r.size = plain.length) :
      Deposited T order session st body k v (.answered (created order session r))
        ((v.setObject k ⟨.ready, r.hash, plain.length⟩).setBytes k.path (some plain))

/-- An upload that was admitted by a store that held `v`, and was handed to its consumer. -/
structure Handed (T : Terms) (st : Stages) (body : Source) (k : Key) (v : Snapshot)
    (u : Upload State Written) (w : Snapshot) : Prop where
  free : Free k v
  fits : T.Fits 0
  record : ∃ r, Unsettled u.resource k r ∧ r.entry = uploading
  digest : u.digest = st.digest
  delivered : ∃ h, Consumer.Delivered body st k.path (v.setObject k uploading) h w ∧
    u.progress = some h.progress ∧ u.stream = h.stream

variable {st : Stages} {body : Source} {w : Snapshot}

/-- The end of an admitted upload: an upload that did not time out has become of one of the ways in which
uploads end, and its consumer has let go of the stream. -/
def Settled (T : Terms) (order : Metadata.Order) (session : Session) (st : Stages) (body : Source) (k : Key)
    (v : Snapshot) (x : Ending × Upload State Written) (w : Snapshot) : Prop :=
  x.2.stream.barrier = .failed .timedOut ∨
    Deposited T order session st body k v x.1 w ∧ ∀ p, x.2.progress = some p → p.result?.isSome = true

theorem status_error (f : Failure) : f.error.status = 500 := by
  rcases f with _ | _ | _ | ⟨_ | _, _⟩ <;> rfl

section Complete

variable {S : Type} {M : Meaning S} {w : S} {r : ObjectRecord}

theorem wp_finalHash_completing (st : Stages) (plain : Bytes) (hdigest : u.digest = st.digest)
    (hb : u.stream.barrier = .completing st plain)
    {Q : Except Trouble (Option String) → Upload State Written → S → Prop}
    (h : Q (.ok (recordedHash session st.digest plain)) u w) : (finalHash session).wp M Q u w := by
  simp only [finalHash, wp_bind, wp_get, hdigest]
  cases hd : st.digest with
  | false => simpa [recordedHash, hd] using h
  | true => simpa [recordedHash, hd, Stream.digest, hb, Barrier.completing] using h

theorem wp_finalHash {Q : Except Trouble (Option String) → Upload State Written → S → Prop}
    (hok : ∀ hash, Q (.ok hash) u w) (herror : ∀ t, t.IsPlain → Q (.error t) u w) :
    (finalHash session).wp M Q u w := by
  simp only [finalHash, wp_bind, wp_get]
  split
  · simp only [wp_bind]
    cases hd : u.stream.digest with
    | ok d => exact hok _
    | error e =>
      refine herror _ ?_
      rw [Stream.digest] at hd
      split at hd
      · cases hd
      all_goals
        cases hd
        simp [Trouble.IsPlain, TransferError.status]
  · exact hok _

/-- A writer that stored nothing makes of the record of an upload one that failed. -/
theorem wp_answer_failed {s : State} {x : Written} {hash : Option String} {size : Nat} (hs : Unsettled s k r)
    (hx : s.writer = some x) (hfailed : ∀ n, x ≠ .stored n)
    {Q : Except Trouble ObjectRecord → State → S → Prop}
    (h : M.pre (.updateObject (r.turn .uploadFailed)) (fun _ w' => ∀ t s', t.IsPlain →
      s'.settled = true → Q (.error t) s' w') w) : (answer hash size).wp M Q s w := by
  have hmark : ∀ {message : String},
      (do markFailed; refuse (.internal message) : Action State ObjectRecord).wp M Q
        { s with writer := none } w := by
    intro message
    have hs' : Unsettled { s with writer := none } k r := ⟨hs.settled, hs.record, hs.key⟩
    rw [wp_bind]
    refine wp_markFailed hs' (M.mono (fun _ w' h a s' ha hs' => ?_) h)
    rcases a with (e | m) | _
    · exact absurd rfl (ha e)
    · exact h _ _ (by simp [Trouble.IsPlain]) hs'
    · exact h _ _ (by simp [Trouble.IsPlain, TransferError.status]) hs'
  simp only [answer, wp_bind, wp_get, wp_set, hx]
  cases x with
  | refused e => exact hmark
  | crashed => exact hmark
  | stored n => exact absurd rfl (hfailed n)

/-- The record of a payload that was stored. -/
def completed (r : ObjectRecord) (session : Session) (st : Stages) (plain : Bytes) : ObjectRecord :=
  { r with hash := recordedHash session st.digest plain, size := plain.length, status := .ready }

@[simp] theorem key_completed (plain : Bytes) : (completed r session st plain).key = r.key := rfl

@[simp] theorem entry_completed (plain : Bytes) : (completed r session st plain).entry =
    ⟨.ready, recordedHash session st.digest plain, plain.length⟩ := rfl

theorem wp_answer_stored {s : State} {n : Nat} {hash : Option String} {size : Nat} (hs : Unsettled s k r)
    (hx : s.writer = some (.stored n)) {Q : Except Trouble ObjectRecord → State → S → Prop}
    (h : M.pre (.updateObject { r with hash, size, status := .ready }) (fun (a : Reply Unit) w' => ∀ s',
      match a with
      | .ok () => s'.settled = true → Q (.ok { r with hash, size, status := .ready }) s' w'
      | _ => ∀ t, t.IsPlain → Unsettled s' k { r with hash, size, status := .ready } →
        Q (.error t) s' w') w) : (answer hash size).wp M Q s w := by
  simp only [answer, wp_bind, wp_get, wp_set, hx, hs.record, wp_modify, wp_updateObject]
  refine M.mono (fun a w' h => ?_) h
  cases a with
  | ok _ => exact h _ rfl
  | failed e =>
    exact h _ _ (by simp [Trouble.IsPlain, TransferError.status]) ⟨hs.settled, rfl, hs.key⟩
  | crashed m => exact h _ _ (by simp [Trouble.IsPlain]) ⟨hs.settled, rfl, hs.key⟩

end Complete

section Conclude

variable {S : Type} {M : Meaning S} {w : S} {r : ObjectRecord}
  {Q : Ending × Upload State Written → S → Prop}

/-- What has become of an upload that was admitted and got no payload stored. -/
structure Failing (u : Upload State Written) (x : Ending × Upload State Written) : Prop where
  created : ¬ x.1.Created
  progress : x.2.progress = u.progress
  timedOut : u.stream.barrier = .pending → x.2.stream.barrier = .failed .timedOut

theorem wp_giveUp {t : Trouble} (hs : Unsettled u.resource k r)
    (h : M.pre (.updateObject (r.turn .uploadFailed))
      (fun _ w' => ∀ released x, GaveUp t u released x → Q x w') w) :
    (finish (hooks c write) settings session k (.error t, u)).wp M Q w :=
  wp_finish_error (wp_markFailed hs (M.mono (fun _ _ h _ _ _ _ x hx => h _ x hx) h))

/-- Concluding an upload whose consumer did not come to its end, or stored nothing. -/
theorem wp_conclude_failing (hs : Unsettled u.resource k r)
    (hu : u.stream.barrier = .pending ∨ ∃ x, u.progress = some (.finished x) ∧ ∀ n, x ≠ .stored n)
    (h : M.pre (.updateObject (r.turn .uploadFailed)) (fun _ w' => ∀ x, Failing u x → Q x w') w) :
    (conclude (hooks c write) settings session k u).wp M Q w := by
  rw [conclude, Program.wp_bind, wp_start, complete]
  simp only [wp_bind, wp_get, setStream, wp_modify]
  cases hb : u.stream.barrier with
  | pending =>
    simp only [Stream.waitFor, Stream.outcome?, hb, wp_ofExcept_error]
    refine wp_giveUp ⟨hs.settled, hs.record, hs.key⟩ (M.mono (fun _ w' h a x hx => h x ?_) h)
    refine ⟨hx.plain (by simp [Trouble.IsPlain, TransferError.status]), hx.kept.progress, fun _ => ?_⟩
    rw [hx.kept.barrier] <;> simp [Stream.fire_of_pending hb]
  | failed f =>
    simp only [Stream.waitFor, Stream.outcome?, hb, wp_ofExcept_error]
    refine wp_giveUp ⟨hs.settled, hs.record, hs.key⟩ (M.mono (fun _ w' h a x hx => h x ?_) h)
    exact ⟨hx.plain (by simp [Trouble.IsPlain, status_error]), hx.kept.progress, by simp [hb]⟩
  | completed n d =>
    obtain ⟨x, hprogress, hfailed⟩ := hu.resolve_left (by simp [hb])
    simp only [Stream.waitFor, Stream.outcome?, hb, wp_ofExcept_ok, receive, hprogress, Option.bind_some,
      Progress.result?]
    have hs' : Unsettled ((hooks c write).deliver x u.resource) k r := ⟨hs.settled, hs.record, hs.key⟩
    refine wp_finalHash (fun hash => ?_) fun t ht => ?_
    · simp only [respond, hook, wp_bind, wp_zoom, hooks]
      refine wp_answer_failed hs' rfl hfailed (M.mono (fun _ w' h t s' ht hsettled => ?_) h)
      refine wp_finish_error (wp_markFailed_settled hsettled fun x hx => h x ?_)
      exact ⟨hx.plain ht, hx.kept.progress.trans hprogress.symm, by simp [hb]⟩
    · refine wp_giveUp hs' (M.mono (fun _ w' h a x hx => h x ?_) h)
      exact ⟨hx.plain ht, hx.kept.progress.trans hprogress.symm, by simp [hb]⟩

/-- Concluding an upload whose payload is stored. -/
theorem wp_conclude_stored {n : Nat} {plain : Bytes} (hs : Unsettled u.resource k r)
    (hdigest : u.digest = st.digest) (hprogress : u.progress = some (.finished (.stored n)))
    (hb : u.stream.barrier = .completing st plain)
    (h : M.pre (.updateObject (completed r session st plain)) (fun (a : Reply Unit) w' =>
      match a with
      | .ok () => ∀ u', u'.progress = u.progress →
        Q (.answered (created c.order session (completed r session st plain)), u') w'
      | _ => M.pre (.updateObject ((completed r session st plain).turn .uploadFailed))
        (fun _ w' => ∀ x, Failing u x → Q x w') w') w) :
    (conclude (hooks c write) settings session k u).wp M Q w := by
  have hb' : u.stream.barrier =
      .completed plain.length (if st.digest then some (Sha256.digest plain) else none) := hb
  rw [conclude, Program.wp_bind, wp_start, complete]
  simp only [wp_bind, wp_get, setStream, wp_modify, Stream.waitFor, Stream.outcome?, hb', wp_ofExcept_ok,
    receive, hprogress, Option.bind_some, Progress.result?]
  refine wp_finalHash_completing st plain ?_ ?_ ?_
  · exact hdigest
  · exact hb
  have hs' : Unsettled ((hooks c write).deliver (.stored n) u.resource) k r := ⟨hs.settled, hs.record, hs.key⟩
  simp only [respond, hook, wp_bind, wp_zoom, hooks]
  refine wp_answer_stored hs' rfl (M.mono (fun a w' h s' => ?_) h)
  cases a with
  | ok _ =>
    intro hsettled
    exact wp_finish_ok hsettled fun u' hu' => h u' (hu'.progress.trans hprogress.symm)
  | failed _ | crashed _ =>
    intro t ht hs'
    refine wp_giveUp hs' (M.mono (fun _ w' h a x hx => h x ?_) h)
    exact ⟨hx.plain ht, hx.kept.progress.trans hprogress.symm, by simp [hb']⟩

end Conclude

/-- Concluding an upload that was admitted. -/
theorem ensures_conclude (hu : Handed T st body k v u w) :
    (conclude (hooks c write) settings session k u).Ensures T (Settled T c.order session st body k v) w := by
  obtain ⟨hfree, hfits, ⟨r, hs, hr⟩, hdigest, h, hdelivered, hprogress, hstream⟩ := hu
  obtain rfl := hs.key
  have hthere : ((v.setObject r.key uploading).object? r.key).isSome = true := by simp
  have hsize : r.size = 0 := congrArg Entry.size hr
  have hzero : T.Fits r.size := hsize ▸ hfits
  rw [Program.ensures_iff_wp]
  -- the record of an upload under way can always be marked
  have hmark : ∀ {Q : Reply Unit → Snapshot → Prop},
      (∀ a, Q a (v.setObject r.key failed)) →
      T.meaning.pre (.updateObject (r.turn .uploadFailed)) Q (v.setObject r.key uploading) := by
    rintro Q hQ _ _ (⟨-, -, rfl, rfl⟩ | ⟨hfails, -⟩)
    · simpa [Snapshot.setObject_setObject, hr, failed] using hQ (.ok ())
    · exact absurd ⟨hzero, hthere⟩ hfails
  cases hdelivered with
  | stalled hresult hpending =>
    rw [← hstream] at hpending
    exact wp_conclude_failing hs (.inl hpending) (hmark fun _ x hx => .inl (hx.timedOut hpending))
  | @refused x hfinished hx hfired =>
    rw [hfinished] at hprogress
    refine wp_conclude_failing hs (.inr ⟨x, hprogress, hx⟩) (hmark fun _ y hy => .inr ⟨.failed hfree hy.created, ?_⟩)
    rintro p hp
    obtain rfl := Option.some.inj ((hy.progress.trans hprogress).symm.trans hp)
    rfl
  | @stored n plain hfinished hplain hcompleted =>
    rw [hfinished] at hprogress
    rw [← hstream] at hcompleted
    refine wp_conclude_stored hs hdigest hprogress hcompleted ?_
    rintro _ _ (⟨hsize, -, rfl, rfl⟩ | ⟨hunfit, e, rfl, rfl⟩)
    · rintro u' hu'
      refine .inr ⟨?_, fun p hp => ?_⟩
      · rw [Snapshot.setObject_setBytes, key_completed, Snapshot.setObject_setObject]
        exact .stored hfree hplain rfl rfl
      · obtain rfl := Option.some.inj ((hu'.trans hprogress).symm.trans hp)
        rfl
    · have hsize : ¬ T.Fits plain.length := fun hsize => hunfit ⟨hsize, hthere⟩
      rintro _ _ (⟨hsize', -⟩ | ⟨-, e, rfl, rfl⟩)
      · exact absurd hsize' hsize
      · intro x hx
        refine .inr ⟨.unfit hfree hx.created hsize hplain, fun p hp => ?_⟩
        obtain rfl := Option.some.inj ((hx.progress.trans hprogress).symm.trans hp)
        rfl

/-! ## The whole upload -/

/-- The stages that an upload asks for. -/
def stagesOf (c : Context) (session : Session) : Stages where
  decompress := session.decompressIn
  digest := session.declaredHash.isNone && c.digest

/-- An upload that was not admitted. -/
theorem ensures_refused {t : Trouble} (ht : t.IsPlain) (hs : u.resource.settled = true)
    (hprogress : u.progress = none) : (finish (hooks c write) settings session k (.error t, u)).Ensures T
      (Settled T c.order session st body k v) v := by
  rw [Program.ensures_iff_wp]
  refine wp_finish_error (wp_markFailed_settled hs fun x hx => .inr ⟨.refused (hx.plain ht), fun p hp => ?_⟩)
  rw [hx.kept.progress, hprogress] at hp
  cases hp

section Whole

variable {S : Type} {M : Meaning S} {w : S}

/-- The stream of an upload that was not admitted yet. -/
def prepared (c : Context) (session : Session) (body : Source) : Stream :=
  { pipeline := { source := body, stages := stagesOf c session } }

/-- Preparing the stream. -/
theorem wp_prepare (hstream : u.stream = .ofSource body)
    {Q : Except Trouble Unit → Upload State Written → S → Prop}
    (h : Q (.ok ()) { u with stream := prepared c session body, digest := (stagesOf c session).digest } w) :
    (prepare (hooks c write) session k).wp M Q u w := by
  cases hin : session.decompressIn <;> cases hdeclared : session.declaredHash.isNone <;>
    cases hdigest : c.digest <;>
    simpa [prepare, hin, hdeclared, hdigest, hooks, enable, hook, setStream, hstream, Stream.ofSource,
      Stream.enableDecompress, Stream.enableDigest, Stream.configure, stagesOf, prepared] using h

/-- An upload is prepared and has its consumer run, and then it is concluded or ends with what it ran into. -/
theorem wp_run {resource : State} {Q : Ending × Upload State Written → S → Prop}
    (hdirection : session.direction = .upload)
    (h : (Upload.accept (hooks c write) session k).wp M (fun a u w =>
      match a with
      | .ok () => (conclude (hooks c write) settings session k u).wp M Q w
      | .error t => (finish (hooks c write) settings session k (.error t, u)).wp M Q w)
      { resource, stream := .ofSource body, patience := settings.responseTimeout } w) :
    (run (hooks c write) settings session k resource body).wp M Q w := by
  rw [run, Program.wp_bind, begin', if_pos hdirection, Program.wp_bind, wp_start]
  refine h.mono fun a u w h => ?_
  cases a with
  | error t => simpa using h
  | ok _ =>
    dsimp only
    split
    · split
      · exact h
      · simpa using h
    · simpa using h

end Whole

/-- Having an upload admitted. -/
theorem ensures_accept (hstream : u.stream = .ofSource body) (hs : u.resource.settled = true)
    (hwrite : (write k.path).Stores k.path [] False)
    {Q : Except Trouble Unit → Upload State Written → Snapshot → Prop}
    (hrefused : ∀ t u', t.IsPlain → u'.resource.settled = true → u'.progress = u.progress →
      Q (.error t) u' v)
    (hok : ∀ u' w, Handed T (stagesOf c session) body k v u' w → Q (.ok ()) u' w) :
    (Upload.accept (hooks c write) session k).Ensures T Q u v := by
  rw [Upload.accept, ensures_bind]
  refine ensures_iff_wp.mpr (wp_prepare hstream ?_)
  simp only [hook, ensures_bind, ensures_zoom, hooks]
  refine ObjectResource.ensures_accept hs (fun t s' ht hs' => hrefused _ _ ht hs' rfl)
    fun s' r hr hentry hfits hfree => ?_
  simp only [ensures_get, ensures_ofProgram, adopt, ensures_modify]
  refine (Consumer.ensures_drive rfl hwrite (Stream.held_start body _) False.elim).mono fun h w hd => ?_
  exact hok _ _ ⟨hfree, hfits, ⟨r, hr, hentry⟩, rfl, h, hd, rfl, rfl⟩

/-- A whole upload. -/
theorem ensures_run {resource : State} (hs : resource.settled = true)
    (hwrite : (write k.path).Stores k.path [] False) :
    (run (hooks c write) settings session k resource body).Ensures T
      (Settled T c.order session (stagesOf c session) body k v) v := by
  by_cases hdirection : session.direction = .upload
  · refine Program.ensures_iff_wp.mpr (wp_run hdirection (ensures_iff_wp.mp ?_))
    refine ensures_accept rfl hs hwrite (fun t u' ht hs' hprogress => ?_) fun u' w hu => ?_
    · exact Program.ensures_iff_wp.mp (ensures_refused ht hs' hprogress)
    · exact Program.ensures_iff_wp.mp (ensures_conclude hu)
  · rw [run, Program.ensures_bind, begin', if_neg hdirection]
    simp only [Program.ensures_bind, Program.ensures_pure]
    exact ensures_refused (by simp [Trouble.IsPlain, TransferError.status]) hs rfl

section Linger

variable {S : Type} {M : Meaning S} {w : S}

/-- A consumer that outlived its upload makes no calls but those of its storage. -/
theorem wp_linger {I : S → Prop} (hI : M.Keeps k.path I)
    (hu : ∀ p, u.progress = some p → p.Within k.path) (hw : I w) : u.linger.wp M (fun _ w => I w) w := by
  rw [linger, handover?]
  cases hp : u.progress with
  | none => exact hw
  | some p =>
    simp only [Option.map_some, Program.wp_bind, Program.wp_pure]
    refine (Handover.wp_resume hI (hu p hp) hw).mono fun h w hh => ?_
    exact (Handover.wp_wake hI hh.1 hh.2).mono fun _ _ h => h.2

/-- A consumer that has let go of its stream has nothing left to do. -/
theorem wp_linger_of_over {I : S → Prop} (hu : ∀ p, u.progress = some p → p.result?.isSome = true) (hw : I w) :
    u.linger.wp M (fun _ w => I w) w := by
  rw [linger, handover?]
  cases hp : u.progress with
  | none => exact hw
  | some p =>
    cases p with
    | finished a => exact hw
    | waiting n next => cases hu _ hp
    | asleep next => cases hu _ hp

end Linger

/-- The consumer of an upload that is over has nothing left to do, unless the upload timed out. -/
theorem ensures_linger {P : Ending × Upload State Written → Snapshot → Prop}
    {x : Ending × Upload State Written} (hx : P x w)
    (hover : ∀ p, x.2.progress = some p → p.result?.isSome = true) :
    (x.2.linger).Ensures T (fun _ => P x) w :=
  Program.ensures_iff_wp.mpr (wp_linger_of_over hover hx)

end Upload

end Depot
