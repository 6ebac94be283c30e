import Depot.Proofs.Transfer.Faultless
import Depot.Transfer.Scripted

/-!
# Draining a failed upload

A body that raises no errors of its own is read to its end before an upload that failed is over, if the drain
comes to an end in time; unless the decoding failed on it.

## Main results

* `Consumer.wp_drive_unspoilt` — no consumer spoils a stream.
* `Upload.keeps_attempt` — neither does an upload, up to where it fails.
* `Upload.body_read_of_failed` — what a failed upload leaves unread.
-/

namespace Depot

/-- The error that a transfer failed with. -/
def Ending.failure? : Ending → Option TransferError
  | failed e _ => some e
  | _ => none

/-- No consumer spoils a stream. -/
theorem Consumer.wp_drive_unspoilt {α : Type} {inflates : Bool} {s : Stream} {patience : Nat} (c : Consumer α)
    (h : s.Unspoilt inflates) (w : Unit) :
    (c.drive patience s).wp .any (fun d _ => d.stream.Unspoilt inflates) w := by
  induction c generalizing s patience w with
  | done a => exact h.fail .abandoned
  | read n next ih =>
    rw [drive]
    split
    · rename_i hread
      exact ih _ (h.read hread) w
    · rename_i hread
      split
      · exact h.read hread
      · exact ih _ (h.read hread) w
  | gather limit got next ih =>
    have hgather : (s.gather chunk limit).stream.Unspoilt inflates := h.gatherLoop
    rw [drive]
    split
    · exact hgather
    · exact ih _ _ hgather w
  | pause ms next ih =>
    rw [drive]
    split
    · exact h
    · exact ih h w
  | call c next ih => exact fun r => ih r h w

namespace Upload

open Depot.Action Depot.Stream

variable {ρ ι ω κ : Type} {h : Hooks ρ ι ω κ} {settings : Settings} {session : Session} {input : ι} {body : Source}
  {resource : ρ} {w : Unit}

/-- Whether the stream of an upload is one over a body that raises no errors. -/
def Unspoilt (session : Session) (u : Upload ρ κ) : Prop := u.stream.Unspoilt session.decompressIn

theorem unspoilt_fresh (hbody : body.Faultless) : Unspoilt session (fresh (κ := κ) settings resource body) where
  pipeline := ⟨rfl, (fun hd => by cases hd), hbody, rfl, fun he => by cases he⟩
  sealed := sealed_of_pending rfl
  finished hf := by cases hf

/-- A hook changes the resource at most. -/
theorem wp_hook_of_forall {α : Type} {a : Action ρ α} {u : Upload ρ κ}
    {Q : Except Trouble α → Upload ρ κ → Unit → Prop} (hQ : ∀ r t w, Q r { u with resource := t } w) :
    (hook a).wp .any Q u w := by
  rw [hook, wp_zoom]
  exact wp_any_of_forall hQ _ _ _

theorem keeps_hook {α : Type} {a : Action ρ α} {u : Upload ρ κ} (hu : Unspoilt session u) :
    (hook a).wp .any (fun _ u _ => Unspoilt session u) u w :=
  wp_hook_of_forall fun _ _ _ => hu

theorem keeps_enable {f : Stages → Stages} {u : Upload ρ κ} (hu : Unspoilt session u)
    (hcompress : ∀ st, (f st).compress = st.compress)
    (hdecompress : ∀ st, (f st).decompress = true → st.decompress = true ∨ session.decompressIn = true) :
    (enable fun s => s.configure f).wp .any (fun _ u _ => Unspoilt session u) u w := by
  simp only [enable, wp_bind, wp_get, configure]
  split
  · exact hu
  · exact {
      pipeline := ⟨(hcompress _).trans hu.pipeline.compress,
        fun hd => (hdecompress _ hd).elim hu.pipeline.decompress id, hu.pipeline.inflate⟩
      sealed := hu.sealed
      finished := hu.finished }

theorem keeps_enableDigest {u : Upload ρ κ} (hu : Unspoilt session u) :
    (enable enableDigest).wp .any (fun _ u _ => Unspoilt session u) u w :=
  keeps_enable hu (fun _ => rfl) fun _ => .inl

theorem keeps_enableDecompress {u : Upload ρ κ} (hu : Unspoilt session u) (hin : session.decompressIn = true) :
    (enable enableDecompress).wp .any (fun _ u _ => Unspoilt session u) u w :=
  keeps_enable hu (fun _ => rfl) fun _ _ => .inr hin

/-- Going on with an action that keeps to what was kept. -/
theorem keeps_bind {α β : Type} {a : Action (Upload ρ κ) α} {k : α → Action (Upload ρ κ) β} {u : Upload ρ κ}
    (ha : a.wp .any (fun _ u _ => Unspoilt session u) u w)
    (hk : ∀ x v w, Unspoilt session v → (k x).wp .any (fun _ u _ => Unspoilt session u) v w) :
    (a >>= k).wp .any (fun _ u _ => Unspoilt session u) u w := by
  rw [wp_bind]
  refine ha.mono fun r v w hv => ?_
  cases r with
  | ok x => exact hk x v w hv
  | error e => exact hv

theorem keeps_prepare {u : Upload ρ κ} (hu : Unspoilt session u) :
    (prepare h session input).wp .any (fun _ u _ => Unspoilt session u) u w := by
  have hdigest (digest : Bool) (v : Upload ρ κ) (w : Unit) (hv : Unspoilt session v) :
      (do if digest then enable Stream.enableDigest
          modify fun u => { u with digest := digest } : Action (Upload ρ κ) Unit).wp .any
        (fun _ u _ => Unspoilt session u) v w := by
    cases digest with
    | false => exact hv
    | true => exact keeps_bind (keeps_enableDigest hv) fun _ _ _ hv => hv
  rw [prepare]
  by_cases hout : session.declaredHash.isNone = true <;> by_cases hin : session.decompressIn = true
  all_goals simp only [hout, hin, if_true, if_false, Bool.false_eq_true]
  · exact keeps_bind (keeps_enableDecompress hu hin) fun _ _ _ hv => keeps_bind (keeps_hook hv) hdigest
  · exact keeps_bind (keeps_hook hu) hdigest
  · exact keeps_bind (keeps_enableDecompress hu hin) fun _ v w hv => hdigest false v w hv
  · exact hdigest false u w hu

theorem keeps_accept {u : Upload ρ κ} (hu : Unspoilt session u) :
    (accept h session input).wp .any (fun _ u _ => Unspoilt session u) u w := by
  refine keeps_bind (keeps_prepare hu) fun _ v w hv => keeps_bind (keeps_hook hv) fun consumer v w hv => ?_
  simp only [wp_bind, wp_get, wp_ofProgram, adopt, wp_modify]
  exact Consumer.wp_drive_unspoilt consumer hv w

theorem keeps_ofExcept {α : Type} {r : Except TransferError α} {u : Upload ρ κ} (hu : Unspoilt session u) :
    (Action.ofExcept r).wp .any (fun _ u _ => Unspoilt session u) u w := by
  cases r <;> exact hu

theorem keeps_finalHash {u : Upload ρ κ} (hu : Unspoilt session u) :
    (finalHash session).wp .any (fun _ u _ => Unspoilt session u) u w := by
  rw [finalHash, wp_bind, wp_get]
  dsimp only
  split
  · exact keeps_bind (keeps_ofExcept hu) fun _ _ _ hv => hv
  · exact hu

theorem keeps_complete {u : Upload ρ κ} (hu : Unspoilt session u) :
    (complete h settings session input).wp .any (fun _ u _ => Unspoilt session u) u w := by
  have hstream : (u.stream.waitFor settings.responseTimeout).2.Unspoilt session.decompressIn := by
    rw [waitFor_stream]
    exact hu.fail .timedOut
  rw [complete, wp_bind, wp_get]
  dsimp only
  generalize u.stream.waitFor settings.responseTimeout = x at *
  obtain ⟨outcome, stream⟩ := x
  refine keeps_bind hstream fun _ v w hv => ?_
  refine keeps_bind (keeps_ofExcept hv) fun size v w hv => ?_
  refine keeps_bind hv fun _ v w hv => ?_
  refine keeps_bind (keeps_finalHash hv) fun hash v w hv => ?_
  exact keeps_bind (keeps_hook hv) fun output v w hv => keeps_bind (keeps_hook hv) fun _ _ _ hv => hv

theorem keeps_attempt (hbody : body.Faultless) : (attempt h settings session input).wp .any
    (fun _ u _ => Unspoilt session u) (fresh settings resource body) w :=
  keeps_bind (keeps_accept (unspoilt_fresh hbody)) fun _ _ _ hv => keeps_complete hv

/-! ## Failed uploads -/

/-- What giving up on an upload leaves unread that was begun. -/
theorem Unspoilt.abandon {u : Upload ρ κ} (hu : Unspoilt session u) (hstarted : u.stream.started = true)
    (hdrain : (u.stream.drainFor settings.maxWait).1.isSome = true) :
    (abandon settings u.stream).pipeline.source.AtEnd ∨ session.decompressIn = true ∧ u.stream.Undecoded := by
  rw [Upload.abandon, hstarted, Bool.true_and]
  cases hcomplete : u.stream.isComplete with
  | false => exact Stream.Unspoilt.drainFor hu hdrain
  | true =>
    have hfired : u.stream.barrier ≠ .pending := by
      intro hpending
      rw [isComplete, hpending] at hcomplete
      cases hcomplete
    rw [Bool.not_true, if_neg Bool.false_ne_true, abort, fire_of_fired hfired]
    rcases hu.finished (hu.sealed hcomplete) with hend | ⟨-, m, hm⟩
    · exact .inl hend
    · rw [isComplete, hm] at hcomplete
      cases hcomplete

theorem started_abandon (s : Stream) : (Upload.abandon settings s).started = s.started := by
  rw [Upload.abandon, drainFor]
  split
  · split
    · rfl
    · exact started_drain s
  · exact started_fire s _

/-- Giving up what is left of an abandoned stream reads nothing of it. -/
theorem abort_abandon (s : Stream) :
    (Upload.abandon settings s).abort.2.pipeline = (Upload.abandon settings s).pipeline ∧
      (Upload.abandon settings s).abort.2.started = s.started := by
  rw [abort, pipeline_fire, started_fire]
  exact ⟨rfl, started_abandon s⟩

/-- Letting go of a resource may change it, and gives up what is left of the stream. -/
theorem wp_release {ending : Ending} {u : Upload ρ κ} {Q : Ending × Upload ρ κ → Unit → Prop}
    (hQ : ∀ r t w, Q (ending.andThen r, { u with resource := t, stream := u.stream.abort.2 }) w) :
    ((hook h.release).start u >>= fun x =>
      pure (ending.andThen x.1, { x.2 with stream := x.2.stream.abort.2 })).wp .any Q w := by
  rw [Program.wp_bind, wp_start]
  exact wp_hook_of_forall fun r t w => hQ r t w

/-- Finishing an upload that was refused gives up its stream, and reads nothing of it any more. -/
theorem wp_finish_abandoned {e : TransferError} {u : Upload ρ κ} :
    (finish h settings session input (.error (.refused e), u)).wp .any
      (fun x _ => x.2.stream.pipeline = (Upload.abandon settings u.stream).pipeline ∧
        x.2.stream.started = u.stream.started) w := by
  rw [finish, Program.wp_bind, wp_start, fail, wp_bind, wp_modify]
  dsimp only
  rw [wp_bind]
  refine wp_hook_of_forall fun reply _ _ => ?_
  obtain (e' | m) | fields := reply <;> exact wp_release fun _ _ _ => abort_abandon u.stream

/-- Only an upload that was refused fails. -/
theorem wp_finish_failure {r : Except Trouble Answer} {u : Upload ρ κ} (hr : ∀ e, r ≠ .error (.refused e)) :
    (finish h settings session input (r, u)).wp .any (fun x _ => x.1.failure? = none) w := by
  have hending {ending : Ending} (hending : ending.failure? = none) (released : Except Trouble Unit) :
      (ending.andThen released).failure? = none := by
    obtain (e | m) | _ := released
    · exact hending
    · rfl
    · exact hending
  obtain (e | m) | a := r
  · exact absurd rfl (hr e)
  · exact wp_release fun released _ _ => hending rfl released
  · exact wp_release fun released _ _ => hending rfl released

section Failed

variable (h : Hooks ρ ι ω κ) (settings : Settings) (session : Session) (input : ι) (resource : ρ) (body : Source)
  {σ : Type} (perform : (c : Call) → σ → Reply c.Answer × σ) (s : σ)

/-- What has become of an upload when it is about to be finished. -/
def attempted : Except Trouble Answer × Upload ρ κ :=
  (((attempt h settings session input).start (fresh settings resource body)).run perform s).1

/-- A body that raises no errors is read to its end before an upload is over that failed after it was begun, if
the drain comes to an end in time; unless the decoding failed. -/
theorem body_read_of_failed {e : TransferError} (hbody : body.Faultless)
    (hfailed : ((run h settings session input resource body).run perform s).1.1.failure? = some e)
    (hstarted : ((run h settings session input resource body).run perform s).1.2.stream.started = true)
    (hdrain : ((attempted h settings session input resource body perform s).2.stream.drainFor
      settings.maxWait).1.isSome = true) :
    ((run h settings session input resource body).run perform s).1.2.stream.pipeline.source.AtEnd ∨
      session.decompressIn = true ∧
        (attempted h settings session input resource body perform s).2.stream.Undecoded := by
  have hu : Unspoilt session (attempted h settings session input resource body perform s).2 :=
    Program.run_of_wp_any (Q := fun (x : Except Trouble Answer × Upload ρ κ) => Unspoilt session x.2)
      (keeps_attempt hbody) perform s
  rw [run_eq] at hfailed hstarted ⊢
  by_cases hdirection : session.direction = .upload
  · rw [if_pos hdirection, Program.run_bind] at hfailed hstarted ⊢
    rw [show (((attempt h settings session input).start (fresh settings resource body)).run perform s).1 =
      attempted h settings session input resource body perform s from rfl] at hfailed hstarted ⊢
    generalize attempted h settings session input resource body perform s = x at *
    generalize
      (((attempt h settings session input).start (fresh settings resource body)).run perform s).2 = s' at *
    obtain ⟨r, u⟩ := x
    by_cases hr : ∃ e, r = .error (.refused e)
    · obtain ⟨e', rfl⟩ := hr
      obtain ⟨hpipeline, hkept⟩ := Program.run_of_wp_any wp_finish_abandoned perform s'
      rw [hpipeline]
      exact hu.abandon (hkept ▸ hstarted) hdrain
    · have hnone := Program.run_of_wp_any (Q := fun (x : Ending × Upload ρ κ) => x.1.failure? = none)
        (t := finish h settings session input (r, u)) (wp_finish_failure fun e he => hr ⟨e, he⟩) perform s'
      rw [hnone] at hfailed
      cases hfailed
  · rw [if_neg hdirection, pure_bind] at hstarted
    obtain ⟨-, hkept⟩ := Program.run_of_wp_any wp_finish_abandoned perform s
    rw [hkept] at hstarted
    cases hstarted

end Failed

/-- A consumer that reads one byte of three: the upload fails, and the rest of its body is read nonetheless. -/
theorem body_read_of_failed_three : ∃ x e,
    x = ((run (Script.hooks { push := .ok { first := some 1 } }) {}
      ⟨.upload, true, 3, false, false, false, "op", some "HASH"⟩ "key" [] (.ofBytes [1, 2, 3])).run
      (fun _ (s : Unit) => (.crashed "", s)) ()).1 ∧
    (Source.ofBytes [1, 2, 3]).Faultless ∧ x.1.failure? = some e ∧ x.2.stream.started = true ∧
    x.2.stream.pipeline.source.AtEnd := by
  have hbody : (Source.ofBytes [1, 2, 3]).Faultless := Source.faultless_ofPieces [[1, 2, 3]]
  have hread := body_read_of_failed (Script.hooks { push := .ok { first := some 1 } }) {}
    ⟨.upload, true, 3, false, false, false, "op", some "HASH"⟩ "key" [] (.ofBytes [1, 2, 3])
    (fun _ (s : Unit) => (.crashed "", s)) () hbody rfl (by decide +kernel) (by decide +kernel)
  exact ⟨_, _, rfl, hbody, rfl, by decide +kernel, hread.resolve_right fun hundecoded => by cases hundecoded.1⟩

/-- A frame that cannot be decoded ends the upload and its drain, and what follows it is not read. -/
theorem unread_of_undecoded : ∃ x,
    x = ((run (Script.hooks {}) {} ⟨.upload, true, 0, true, false, true, "op", some "HASH"⟩ "key" []
      (.ofPieces [[110, 111, 116, 32, 97], [1, 2, 3]])).run (fun _ (s : Unit) => (.crashed "", s)) ()).1 ∧
    (Source.ofPieces [[110, 111, 116, 32, 97], [1, 2, 3]]).Faultless ∧
    x.1.failure? = some (.codec "zstd: Unknown frame descriptor") ∧ x.2.stream.started = true ∧
    ((attempted (Script.hooks {}) {} ⟨.upload, true, 0, true, false, true, "op", some "HASH"⟩ "key" []
      (.ofPieces [[110, 111, 116, 32, 97], [1, 2, 3]]) (fun _ (s : Unit) => (.crashed "", s))
      ()).2.stream.drainFor 1000).1.isSome = true ∧
    x.2.stream.pipeline.source.bytes = [1, 2, 3] :=
  ⟨_, rfl, Source.faultless_ofPieces _, by decide +kernel, by decide +kernel, by decide +kernel, by decide +kernel⟩

end Upload

end Depot
