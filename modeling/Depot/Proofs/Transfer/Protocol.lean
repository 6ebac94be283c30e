import Depot.Proofs.Transfer.Calls
import Depot.Proofs.Transfer.Recording
import Depot.Transfer.Scripted

/-!
# The course of an upload

An upload calls its hooks one after the other: whether to hash, admission, and, once the consumer was told of
the end, the answer and its headers. Nothing is called after a hook that failed but the one that reports it.
Whatever happens, the barrier of the stream is fired in the end.

## Main results

* `Upload.wp_attempt_watched` — what is attempted, up to the first thing that fails.
* `Upload.wp_run_watched` — how an upload ends.
* `Upload.answered_iff` — when an upload is answered, and with what.
-/

namespace Depot

namespace Upload

open Depot.Action Depot.Stream Depot.HookEvent

variable {ρ ι ω κ : Type}

/-- An upload whose hooks are watched. -/
abbrev Seen (ρ ω κ : Type) := Upload (Journaled ρ ω) (Heard × κ)

/-- Whether the consumer has let go of the stream after it was told of the end. -/
def ReachedEnd (u : Seen ρ ω κ) : Prop := ∃ g k, u.progress = some (.finished (g, k)) ∧ g.ended = true

/-- Whether the stages of a stream are done for, and its consumer was told, if its barrier is complete. -/
def Told (u : Seen ρ ω κ) : Prop :=
  u.stream.barrier.isComplete = true → u.stream.pipeline.finished = true ∧ ReachedEnd u

theorem told_of_not_isComplete {u : Seen ρ ω κ} (h : u.stream.barrier.isComplete = false) : u.Told := by
  intro hu
  exact absurd (h.symm.trans hu) Bool.false_ne_true

theorem Told.fail {u : Seen ρ ω κ} (h : u.Told) (f : Failure) :
    Told { u with stream := u.stream.fire (.failed f) } := by
  intro hu
  have hsealed : u.stream.Sealed := fun hs => (h hs).1
  exact ⟨hsealed.fail f hu, (h (by rwa [isComplete_fail] at hu)).2⟩

/-- What has become of an upload that was attempted. -/
structure Attempted (h : Hooks ρ ι ω κ) (session : Session) (body : Source) (r : Except Trouble Answer)
    (u : Seen ρ ω κ) : Prop where
  told : u.Told
  underway : Underway u.resource.calls
  answered : ∀ a, r = .ok a → Smooth u.resource.calls ∧
    ∃ g k, u.progress = some (.finished (g, k)) ∧ g.ended = true ∧ session.Confirmed h body g a u.resource.calls
  failed : ∀ t, r = .error t → ¬ (ReachedEnd u ∧ Smooth u.resource.calls)

variable {h : Hooks ρ ι ω κ} {settings : Settings} {session : Session} {input : ι} {body : Source}
  {resource : ρ} {w : Unit}

/-- The stages that an upload asks for, if hashing is `wanted`. -/
def stages (session : Session) (wanted : Bool) : Stages where
  decompress := session.decompressIn
  digest := session.declaredHash.isNone && wanted

theorem attempted_error {u : Seen ρ ω κ} {t : Trouble} (htold : u.Told) (hunder : Underway u.resource.calls)
    (hfailed : ¬ (ReachedEnd u ∧ Smooth u.resource.calls)) : Attempted h session body (.error t) u where
  told := htold
  underway := hunder
  answered _ ha := by cases ha
  failed _ _ := hfailed

/-- An upload that was not admitted. -/
theorem attempted_refused {u : Seen ρ ω κ} {t : Trouble} {before : List (HookEvent ω)} {c : HookEvent ω}
    (hstream : u.stream.barrier = .pending) (hbefore : Underway before) (hs : Smooth before)
    (hcalls : u.resource.calls = before ++ [c]) (hfailed : c.failed = true) (hreport : c.isReport = false) :
    Attempted h session body (.error t) u := by
  refine attempted_error (told_of_not_isComplete ?_) (hcalls ▸ hbefore.snoc hs hreport) fun hu => ?_
  · rw [hstream]
    rfl
  · exact not_smooth_snoc hfailed (hcalls ▸ hu.2)

/-- An upload whose stream was prepared. -/
def ready (settings : Settings) (session : Session) (wanted : Bool) (resource : Journaled ρ ω) (body : Source) :
    Seen ρ ω κ :=
  { fresh settings resource body with
    stream := { pipeline := { source := body, stages := stages session wanted } }
    digest := (stages session wanted).digest }

theorem wp_prepare_watched {Q : Except Trouble Unit → Seen ρ ω κ → Unit → Prop}
    (hok : ∀ wanted t w, Q (.ok ()) (ready settings session wanted ⟨t, session.firstCalls wanted⟩ body) w)
    (herror : ∀ t u w, u.stream.barrier = .pending → u.resource.calls = [] ++ [.wantsDigest (.error t)] →
      Q (.error t) u w) :
    (prepare h.watched session input).wp .any Q (fresh settings ⟨resource, []⟩ body) w := by
  have hask (s : Stream) {Q : Except Trouble Bool → Seen ρ ω κ → Unit → Prop}
      (hasked : ∀ r t w, Q r { fresh settings ⟨t, [.wantsDigest r]⟩ body with stream := s } w) :
      (hook (h.watched.wantsDigest input)).wp .any Q
        { fresh settings (⟨resource, []⟩ : Journaled ρ ω) body with stream := s } w := by
    simp only [hook, wp_zoom, Hooks.watched, wp_watch]
    exact wp_any_of_forall (fun r t w => hasked r t w) _ _ _
  have hdigest {inflates : Bool} (hin : session.decompressIn = inflates) (hdeclared : session.declaredHash = none)
      (wanted : Bool) (t : ρ) (w : Unit) :
      (do if wanted then enable Stream.enableDigest
          modify fun u => { u with digest := wanted } : Action (Seen ρ ω κ) Unit).wp .any Q
        { fresh settings ⟨t, [.wantsDigest (.ok wanted)]⟩ body with
          stream := { pipeline := { source := body, stages := { decompress := inflates } } } } w := by
    have hready := hok wanted t w
    cases wanted <;>
      simpa [ready, stages, Session.firstCalls, hin, hdeclared, enable, setStream, enableDigest, configure]
        using hready
  rw [prepare]
  cases hin : session.decompressIn <;> cases hdeclared : session.declaredHash
  case false.none =>
    simp only [Option.isNone_none, if_true, if_false, Bool.false_eq_true, wp_bind]
    refine hask (.ofSource body) fun r t w => ?_
    obtain e | wanted := r
    · exact herror e _ w rfl rfl
    · exact hdigest hin hdeclared wanted t w
  case true.none =>
    simp only [Option.isNone_none, if_true, if_false, Bool.false_eq_true, wp_bind, enable, setStream, wp_get,
      wp_modify, enableDecompress, configure, fresh, ofSource, wp_ofExcept_ok]
    refine hask { pipeline := { source := body, stages := { decompress := true } } } fun r t w => ?_
    obtain e | wanted := r
    · exact herror e _ w rfl rfl
    · exact hdigest hin hdeclared wanted t w
  all_goals
    have hready := hok false resource w
    simpa [ready, stages, Session.firstCalls, hin, hdeclared, enable, setStream, enableDecompress, configure,
      fresh, ofSource] using hready

/-- An upload that was admitted, and whose consumer ran as far as it got. -/
structure Admitted (session : Session) (wanted : Bool) (body : Source) (u : Seen ρ ω κ) : Prop where
  calls : u.resource.calls = session.firstCalls wanted ++ [.accept (.ok ())]
  digest : u.digest = (stages session wanted).digest
  recorded : ∃ d, Consumer.Recorded body (stages session wanted) d ∧
    u.progress = some d.progress ∧ u.stream = d.stream

theorem wp_accept_watched {Q : Except Trouble Unit → Seen ρ ω κ → Unit → Prop}
    (hok : ∀ wanted u w, Admitted session wanted body u → Q (.ok ()) u w)
    (herror : ∀ t u w, Attempted h session body (.error t) u → Q (.error t) u w) :
    (accept h.watched session input).wp .any Q (fresh settings ⟨resource, []⟩ body) w := by
  rw [accept, wp_bind]
  refine wp_prepare_watched (fun wanted t w => ?_) fun t u w hstream hcalls => ?_
  · simp only [wp_bind, hook, wp_zoom, Hooks.watched, wp_watch, wp_map]
    refine wp_any_of_forall (fun r t w => ?_) _ _ _
    cases r with
    | error e =>
      have hfirst : Underway (session.firstCalls wanted : List (HookEvent ω)) := session.underway_firstCalls wanted
      exact herror e _ w (attempted_refused rfl hfirst (session.smooth_firstCalls wanted) rfl rfl rfl)
    | ok c =>
      simp only [wp_get, wp_ofProgram, adopt, wp_modify]
      refine (Consumer.wp_drive_recording c (listens_start body (stages session wanted)) w).mono fun d w hd => ?_
      exact hok wanted _ w ⟨rfl, rfl, d, hd, rfl, rfl⟩
  · exact herror t u w (attempted_refused hstream underway_nil smooth_nil hcalls rfl rfl)

theorem Admitted.underway {wanted : Bool} {u : Seen ρ ω κ} (hu : Admitted session wanted body u) :
    Smooth u.resource.calls ∧ Underway u.resource.calls := by
  rw [hu.calls]
  exact ⟨(session.smooth_firstCalls wanted).snoc rfl,
    (session.underway_firstCalls wanted).snoc (session.smooth_firstCalls wanted) rfl⟩

/-- An upload whose consumer was not told of the end. -/
theorem Admitted.unfinished {wanted : Bool} {u : Seen ρ ω κ} (hu : Admitted session wanted body u)
    (hstream : u.stream.isComplete = false) (hend : ¬ ReachedEnd u)
    {Q : Except Trouble Answer → Seen ρ ω κ → Unit → Prop} (hQ : ∀ r u w, Attempted h session body r u → Q r u w) :
    (complete h.watched settings session input).wp .any Q u w := by
  have hattempted (e : TransferError) {s : Stream} (hs : s.barrier.isComplete = false) :
      Attempted h session body (.error (.refused e)) { u with stream := s } :=
    attempted_error (told_of_not_isComplete hs) hu.underway.2 fun hdone => hend hdone.1
  simp only [complete, wp_bind, wp_get, setStream, wp_modify]
  cases hb : u.stream.barrier with
  | pending =>
    simp only [waitFor, outcome?, hb, wp_ofExcept_error]
    exact hQ _ _ w (hattempted _ (by rw [isComplete_fail, hb]; rfl))
  | failed f =>
    simp only [waitFor, outcome?, hb, wp_ofExcept_error]
    exact hQ _ _ w (hattempted _ hstream)
  | completed n d => simp [isComplete, hb, Barrier.isComplete] at hstream

theorem wp_respond_watched {u : Seen ρ ω κ} {hash : Option String} {size : Nat}
    (hs : Smooth u.resource.calls) (hunder : Underway u.resource.calls)
    {Q : Except Trouble Answer → Seen ρ ω κ → Unit → Prop}
    (herror : ∀ t resource calls w, Underway calls → ¬ Smooth calls →
      Q (.error t) { u with resource := ⟨resource, calls⟩ } w)
    (hok : ∀ output fields resource w, Q (.ok {
        status := 201
        fields := session.finishFields (fields.insert Header.contentType jsonType)
        payload := .json (h.answerJson output) })
      { u with resource := ⟨resource, u.resource.calls ++ [.answer hash size (.ok output)] ++
        [.answerFields hash size (.ok fields)]⟩ } w) :
    (respond h.watched session input hash size).wp .any Q u w := by
  simp only [respond, wp_bind, hook, wp_zoom, Hooks.watched, wp_watch, wp_pure]
  refine wp_any_of_forall (fun r t w => ?_) _ _ _
  cases r with
  | error e => exact herror e t _ w (hunder.snoc hs rfl) (not_smooth_snoc rfl)
  | ok output =>
    have hs' : Smooth (u.resource.calls ++ [.answer hash size (.ok output)]) := hs.snoc rfl
    refine wp_any_of_forall (fun r t w => ?_) _ _ _
    cases r with
    | error e => exact herror e t _ w ((hunder.snoc hs rfl).snoc hs' rfl) (not_smooth_snoc rfl)
    | ok fields => exact hok output fields t w

/-- An upload whose consumer was told of the end. -/
theorem Admitted.ended {wanted : Bool} {u : Seen ρ ω κ} {g : Heard} {k : κ}
    (hu : Admitted session wanted body u) (hlistens : Listens body (stages session wanted) u.stream g)
    (hprogress : u.progress = some (.finished (g, k))) (hend : g.ended = true)
    {Q : Except Trouble Answer → Seen ρ ω κ → Unit → Prop}
    (hQ : ∀ r u w, Attempted h session body r u → Q r u w) :
    (complete h.watched settings session input).wp .any Q u w := by
  have hcomplete : u.stream.barrier.isComplete = true := hlistens.ended.symm.trans hend
  obtain ⟨plain, hplain, houtput, hb⟩ := hlistens.held.completed hcomplete
  obtain rfl : g.bytes = plain := houtput
  have hhash {Q : Except Trouble (Option String) → Seen ρ ω κ → Unit → Prop} {v : Seen ρ ω κ} {w : Unit}
      (hdigest : v.digest = u.digest) (hstream : v.stream = u.stream)
      (hQ : Q (.ok (session.hashOf wanted g.bytes)) v w) : (finalHash session).wp .any Q v w := by
    simp only [finalHash, wp_bind, wp_get, hdigest, hu.digest]
    cases hdeclared : session.declaredHash <;> cases wanted <;>
      simpa [stages, hdeclared, hstream, Stream.digest, hb, Barrier.completing, Session.hashOf] using hQ
  have hrespond {v : Seen ρ ω κ} {w : Unit} (hcalls : v.resource.calls = u.resource.calls)
      (hstream : v.stream = u.stream) (hv : v.progress = some (.finished (g, k))) :
      (respond h.watched session input (session.hashOf wanted g.bytes) g.bytes.length).wp .any Q v w := by
    obtain ⟨hsmooth, hunder⟩ : Smooth v.resource.calls ∧ Underway v.resource.calls := hcalls ▸ hu.underway
    have htold : v.Told := fun _ => ⟨hstream ▸ hlistens.sealed hcomplete, g, k, hv, hend⟩
    refine wp_respond_watched hsmooth hunder ?_ ?_
    · intro t resource calls w hunder hfailed
      exact hQ _ _ w (attempted_error htold hunder fun hdone => hfailed hdone.2)
    · intro output fields resource w
      have hs := hsmooth.snoc (c := .answer (session.hashOf wanted g.bytes) g.bytes.length (.ok output)) rfl
      refine hQ _ _ w ⟨htold, ?_, ?_, fun _ ha => by cases ha⟩
      · exact (hunder.snoc hsmooth rfl).snoc hs rfl
      · rintro a ⟨⟩
        refine ⟨hs.snoc rfl, g, k, hv, hend, rfl, hplain, wanted, output, fields, ?_, rfl,
          session.get?_confirmed fields⟩
        simp [hcalls, hu.calls]
  simp only [complete, wp_bind, wp_get, setStream, wp_modify, waitFor, outcome?, hb, Barrier.completing,
    wp_ofExcept_ok, receive, hprogress, Option.bind_some, Progress.result?]
  exact hhash rfl rfl (hrespond rfl rfl rfl)

theorem wp_attempt_watched : (attempt h.watched settings session input).wp .any
    (fun r u _ => Attempted h session body r u) (fresh settings ⟨resource, []⟩ body) w := by
  rw [attempt, wp_bind]
  refine wp_accept_watched (fun wanted u w hu => ?_) fun t u w hu => hu
  obtain ⟨d, hd, hprogress, hstream⟩ := hu.recorded
  cases hd with
  | stalled hresult hpending =>
    refine hu.unfinished ?_ ?_ fun _ _ _ hr => hr
    · rw [hstream, isComplete, hpending]
      rfl
    · rintro ⟨g, k, hfinished, -⟩
      rw [Option.some.inj (hprogress.symm.trans hfinished)] at hresult
      cases hresult
  | @finished s g k patience hlistens =>
    cases hend : g.ended with
    | true =>
      have hrelease := Consumer.release_of_isComplete (hlistens.ended.symm.trans hend)
      rw [hrelease] at hstream
      exact hu.ended (hstream ▸ hlistens) hprogress hend fun _ _ _ hr => hr
    | false =>
      refine hu.unfinished ?_ ?_ fun _ _ _ hr => hr
      · have hopen : s.barrier.isComplete = false := hlistens.ended.symm.trans hend
        rwa [hstream, isComplete, Stream.release, isComplete_fail]
      · rintro ⟨g', k', hfinished, htrue⟩
        cases hprogress.symm.trans hfinished
        exact Bool.false_ne_true (hend.symm.trans htrue)

theorem told_abandon {u : Seen ρ ω κ} (h : u.Told) : Told { u with stream := abandon settings u.stream } := by
  rw [abandon]
  split
  · rename_i hs
    rw [Bool.and_eq_true, Bool.not_eq_true'] at hs
    rw [drainFor]
    split
    · exact h
    · refine told_of_not_isComplete ?_
      rw [barrier_drain, isComplete_fail]
      exact hs.2
  · exact h.fail _

/-- How an upload ends whose hooks are watched. -/
structure Concluded (h : Hooks ρ ι ω κ) (settings : Settings) (session : Session) (body : Source)
    (x : Ending × Seen ρ ω κ) : Prop where
  fired : x.2.stream.barrier ≠ .pending
  told : x.2.Told
  answered : ∀ a, x.1 = .answered a → Smooth x.2.resource.calls ∧
    ∃ g k, x.2.progress = some (.finished (g, k)) ∧ g.ended = true ∧
      session.Confirmed h body g a x.2.resource.calls
  failed : ∀ e a, x.1 = .failed e a → ¬ (ReachedEnd x.2 ∧ Smooth x.2.resource.calls) ∧
    (h.Reports → session.Reported settings.moduleName e a x.2.resource.calls)

/-- Letting go of a resource leaves the calls of its hooks as they were. -/
theorem wp_release_watched {ending : Ending} {u : Seen ρ ω κ} {Q : Ending × Seen ρ ω κ → Unit → Prop}
    (htold : u.Told) (hQ : ∀ e v w, v.stream.barrier ≠ .pending → v.Told → v.progress = u.progress →
      v.resource.calls = u.resource.calls → (e = ending ∨ ∃ m, e = .crashed m) → Q (e, v) w) :
    ((hook h.watched.release).start u >>= fun x =>
      pure (ending.andThen x.1, { x.2 with stream := x.2.stream.abort.2 })).wp .any Q w := by
  simp only [Program.wp_bind, Program.wp_pure, wp_start, hook, wp_zoom, Hooks.watched]
  refine wp_any_of_forall (fun released t w => ?_) _ _ _
  refine hQ _ _ w (barrier_fire_ne_pending fun hf => by cases hf) (htold.fail _) rfl rfl ?_
  obtain (e | m) | _ := released
  · exact .inl rfl
  · exact .inr ⟨m, rfl⟩
  · exact .inl rfl

theorem wp_hook_report {status : Nat} {u : Seen ρ ω κ} {Q : Except Trouble Fields → Seen ρ ω κ → Unit → Prop}
    (hQ : ∀ r t w, (h.Reports → ∀ e, r ≠ .error (.refused e)) →
      Q r { u with resource := ⟨t, u.resource.calls ++ [.errorFields status r]⟩ } w) :
    (hook (h.watched.errorFields input status)).wp .any Q u w := by
  simp only [hook, wp_zoom, Hooks.watched, wp_watch]
  exact wp_report hQ

theorem concluded_crashed {u : Seen ρ ω κ} (hfired : u.stream.barrier ≠ .pending) (htold : u.Told) (m : String) :
    Concluded h settings session body (.crashed m, u) :=
  ⟨hfired, htold, (fun _ ha => by cases ha), fun _ _ ha => by cases ha⟩

theorem concluded_failed {u : Seen ρ ω κ} {e : TransferError} {a : Answer} (hfired : u.stream.barrier ≠ .pending)
    (htold : u.Told) (hopen : ¬ (ReachedEnd u ∧ Smooth u.resource.calls))
    (hreported : h.Reports → session.Reported settings.moduleName e a u.resource.calls) :
    Concluded h settings session body (.failed e a, u) := by
  refine ⟨hfired, htold, (fun _ ha => by cases ha), ?_⟩
  rintro _ _ ⟨⟩
  exact ⟨hopen, hreported⟩

/-- Finishing an upload that was refused with `e`. -/
theorem wp_finish_refused {e : TransferError} {u : Seen ρ ω κ}
    (hr : Attempted h session body (.error (.refused e)) u) :
    (finish h.watched settings session input (.error (.refused e), u)).wp .any
      (fun x _ => Concluded h settings session body x ∧ ∀ a, x.1 ≠ .answered a) w := by
  have hopen (reply : Except Trouble Fields) (v : Seen ρ ω κ) (hprogress : v.progress = u.progress)
      (hcalls : v.resource.calls = u.resource.calls ++ [.errorFields e.status reply]) :
      ¬ (ReachedEnd v ∧ Smooth v.resource.calls) := by
    rintro ⟨⟨g, k, hv, hend⟩, hsmooth⟩
    refine hr.failed _ rfl ⟨⟨g, k, hprogress.symm.trans hv, hend⟩, fun c hc => hsmooth c ?_⟩
    exact hcalls ▸ List.mem_append_left _ hc
  rw [finish, Program.wp_bind, wp_start, fail, wp_bind, wp_modify]
  dsimp only
  rw [wp_bind]
  refine wp_hook_report fun reply t w hreply => ?_
  obtain (e' | m) | fields := reply
  · refine wp_release_watched (told_abandon hr.told) fun ending v w hfired htold hprogress hcalls hending => ?_
    rcases hending with rfl | ⟨m, rfl⟩
    · exact ⟨concluded_failed hfired htold (hopen _ v hprogress hcalls)
        fun hreports => absurd rfl (hreply hreports e'), fun _ ha => by cases ha⟩
    · exact ⟨concluded_crashed hfired htold m, fun _ ha => by cases ha⟩
  · refine wp_release_watched (told_abandon hr.told) fun ending v w hfired htold _ _ hending => ?_
    obtain ⟨m, rfl⟩ : ∃ m, ending = .crashed m := hending.elim (fun he => ⟨m, he⟩) id
    exact ⟨concluded_crashed hfired htold m, fun _ ha => by cases ha⟩
  · refine wp_release_watched (told_abandon hr.told) fun ending v w hfired htold hprogress hcalls hending => ?_
    rcases hending with rfl | ⟨m, rfl⟩
    · refine ⟨concluded_failed hfired htold (hopen _ v hprogress hcalls) fun _ => ?_, fun _ ha => by cases ha⟩
      rw [hcalls]
      exact session.reported_errorAnswer settings.moduleName e fields hr.underway
    · exact ⟨concluded_crashed hfired htold m, fun _ ha => by cases ha⟩

theorem wp_finish_watched {r : Except Trouble Answer} {u : Seen ρ ω κ} (hr : Attempted h session body r u) :
    (finish h.watched settings session input (r, u)).wp .any
      (fun x _ => Concluded h settings session body x) w := by
  obtain (e | m) | a := r
  · exact (wp_finish_refused hr).mono fun x w hx => hx.1
  · refine wp_release_watched hr.told fun e v w hfired htold _ _ hending => ?_
    obtain ⟨m, rfl⟩ : ∃ m, e = .crashed m := hending.elim (fun he => ⟨m, he⟩) id
    exact concluded_crashed hfired htold m
  · refine wp_release_watched hr.told fun e v w hfired htold hprogress hcalls hending => ?_
    rcases hending with rfl | ⟨m, rfl⟩
    · refine ⟨hfired, htold, ?_, fun _ _ ha => by cases ha⟩
      rintro a ⟨⟩
      rw [hprogress, hcalls]
      exact hr.answered a rfl
    · exact concluded_crashed hfired htold m

/-- An upload whose hooks are watched, from its beginning to its end. -/
theorem wp_run_watched : (run h.watched settings session input ⟨resource, []⟩ body).wp .any
    (fun x _ => Concluded h settings session body x ∧
      ∀ a, x.1 = .answered a → session.direction = .upload) w := by
  rw [run_eq, Program.wp_bind]
  split
  · rename_i hdirection
    rw [wp_start]
    refine wp_attempt_watched.mono fun r u w hr => ?_
    exact (wp_finish_watched hr).mono fun x w hx => ⟨hx, fun _ _ => hdirection⟩
  · refine (wp_finish_refused ⟨?_, ?_, ?_, ?_⟩).mono fun x w hx => ⟨hx.1, fun a ha => absurd ha (hx.2 a)⟩
    · exact told_of_not_isComplete rfl
    · exact underway_nil
    · exact fun _ ha => by cases ha
    · rintro _ - ⟨⟨g, k, hprogress, -⟩, -⟩
      cases hprogress

section Seen

variable (h : Hooks ρ ι ω κ) (settings : Settings) (session : Session) (input : ι) (resource : ρ) (body : Source)
  {σ : Type} (perform : (c : Call) → σ → Reply c.Answer × σ) (s : σ)

/-- How an upload ends, seen with its hooks watched, on a store that `perform` answers for. -/
def seen : Ending × Seen ρ ω κ := ((run h.watched settings session input ⟨resource, []⟩ body).run perform s).1

theorem concluded_seen :
    Concluded h settings session body (seen h settings session input resource body perform s) ∧ ∀ a,
      (seen h settings session input resource body perform s).1 = .answered a → session.direction = .upload :=
  Program.run_of_wp_any wp_run_watched perform s

theorem run_seen : ((run h settings session input resource body).run perform s).1 =
    bare (seen h settings session input resource body perform s) := by
  rw [run_watched, Program.run_map]
  rfl

end Seen

end Upload

end Depot
