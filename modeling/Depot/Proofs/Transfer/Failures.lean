import Depot.Proofs.Transfer.Protocol

/-!
# Failing transfers

Uploads and downloads report a failure in the same way. An upload that is over, failed or not, leaves nobody
waiting for its stream.

## Main results

* `failures_reported` — how every transfer ends that fails.
-/

namespace Depot

namespace Upload

variable {ρ ω κ : Type}

/-- Whether nobody gets anything of the stream of an upload any more: a read fails, or finds the end that the
consumer was told of. -/
def Over (u : Seen ρ ω κ) : Prop :=
  u.stream.barrier ≠ .pending ∧ ∀ n, (∃ e, u.stream.read n = (.error e, u.stream)) ∨
    ReachedEnd u ∧ u.stream.read n = (.ok [], u.stream)

theorem Told.over {u : Seen ρ ω κ} (h : u.Told) (hfired : u.stream.barrier ≠ .pending) : u.Over := by
  refine ⟨hfired, fun n => ?_⟩
  have hsealed : u.stream.Sealed := fun hs => (h hs).1
  rcases hsealed.read hfired n with herror | ⟨hs, hend⟩
  · exact .inl herror
  · exact .inr ⟨(h hs).2, hend⟩

end Upload

namespace Download

open Depot.Action Depot.HookEvent

variable {ρ ι ω κ : Type} {h : Hooks ρ ι ω κ} {settings : Settings} {session : Session} {input : ι} {w : Unit}

theorem wp_streamOut_watched {t : Journaled ρ ω} (hs : Smooth t.calls) (hunder : Underway t.calls) :
    (streamOut h.watched session input).wp .any (fun _ t _ => Underway t.calls) t w := by
  rw [streamOut]
  split
  · exact hunder
  · rw [wp_bind, Hooks.watched, wp_watch]
    refine wp_any_of_forall (fun r t' w => ?_) _ _ _
    cases r with
    | error e => exact hunder.snoc hs rfl
    | ok source =>
      have hs' : Smooth (t.calls ++ [.payload (.ok ())]) := hs.snoc rfl
      dsimp only
      rw [wp_bind, wp_watch]
      refine wp_any_of_forall (fun r t' w => ?_) _ _ _
      have hunder' := (hunder.snoc hs (c := .payload (.ok ())) rfl).snoc hs' (c := .payloadFields r) rfl
      cases r with
      | error e => exact hunder'
      | ok fields =>
        dsimp only
        split
        · exact hunder'
        · exact hunder'

/-- Finishing a download that was attempted. -/
theorem wp_finish_watched {r : Except Trouble Answer} {t : Journaled ρ ω} (hunder : Underway t.calls)
    (hreports : h.Reports) : (finish h.watched settings session input (r, t)).wp .any
      (fun x _ => ∀ e a, x.1 = .failed e a → session.Reported settings.moduleName e a x.2.calls) w := by
  have hrelease {ending : Ending} {u : Journaled ρ ω} {w : Unit}
      (hending : ∀ e a, ending = .failed e a → session.Reported settings.moduleName e a u.calls) :
      (h.watched.release.start u >>= fun x => pure (ending.andThen x.1, x.2)).wp .any
        (fun x _ => ∀ e a, x.1 = .failed e a → session.Reported settings.moduleName e a x.2.calls) w := by
    simp only [Program.wp_bind, Program.wp_pure, wp_start, Hooks.watched, wp_zoom]
    refine wp_any_of_forall (fun released t w => ?_) _ _ _
    obtain (e | m) | _ := released
    · exact hending
    · exact fun _ _ ha => by cases ha
    · exact hending
  obtain (e | m) | a := r
  · rw [finish, Program.wp_bind, wp_start, Hooks.watched, wp_watch]
    refine (hreports input e.status t.own w).mono fun reply s w hreply => ?_
    obtain (e' | m) | fields := reply
    · exact absurd rfl (hreply e')
    · exact hrelease fun _ _ ha => by cases ha
    · refine hrelease ?_
      rintro _ _ ⟨⟩
      exact session.reported_errorAnswer settings.moduleName e fields hunder
  · exact hrelease fun _ _ ha => by cases ha
  · exact hrelease fun _ _ ha => by cases ha

theorem wp_pull_watched {request : Headers} {resource : ρ} (hreports : h.Reports) :
    (pull h.watched settings session input request ⟨resource, []⟩).wp .any
      (fun x _ => ∀ e a, x.1 = .failed e a → session.Reported settings.moduleName e a x.2.calls) w := by
  rw [pull, Program.wp_bind, wp_start, wp_bind]
  rw [Hooks.watched, wp_watch]
  refine wp_any_of_forall (fun r t w => ?_) _ _ _
  have hunder : Underway ([.readable r] : List (HookEvent ω)) := underway_nil.snoc smooth_nil rfl
  obtain e | there := r
  · exact wp_finish_watched hunder hreports
  · cases there with
    | false => exact wp_finish_watched hunder hreports
    | true =>
      have hs : Smooth ([.readable (.ok true)] : List (HookEvent ω)) := smooth_nil.snoc rfl
      exact (wp_streamOut_watched hs hunder).mono fun r t w ht => wp_finish_watched ht hreports

theorem wp_pullList_watched {resource : ρ} (hreports : h.Reports) :
    (pullList h.watched settings session input ⟨resource, []⟩).wp .any
      (fun x _ => ∀ e a, x.1 = .failed e a → session.Reported settings.moduleName e a x.2.calls) w := by
  rw [pullList, Program.wp_bind, wp_start]
  exact (wp_streamOut_watched smooth_nil underway_nil).mono fun r t w ht => wp_finish_watched ht hreports

end Download

/-- The headers of a scripted resource are there whenever they are asked for. -/
theorem Script.reports_hooks (s : Script) : s.hooks.Reports := by
  intro input status log w
  simp only [hooks, note, Action.wp_bind, Action.wp_modify]
  split
  · exact fun e he => by cases he
  · exact fun e he => by cases he

/-- A transfer that fails reports its failure, and the engine's own headers stand whatever the hooks say; and an
upload that is over leaves nobody waiting for its stream. -/
theorem failures_reported {ρ ι ω κ σ : Type} {h : Hooks ρ ι ω κ} (hreports : h.Reports) (settings : Settings)
    (session : Session) (input : ι) (request : Headers) (resource : ρ) (body : Source)
    (perform : (c : Call) → σ → Reply c.Answer × σ) (s : σ) :
    (∃ x, x = ((Upload.run h.watched settings session input ⟨resource, []⟩ body).run perform s).1 ∧
      ((Upload.run h settings session input resource body).run perform s).1 = Upload.bare x ∧
      (∀ e a, x.1 = .failed e a → session.Reported settings.moduleName e a x.2.resource.calls) ∧ x.2.Over) ∧
    (∃ x, x = ((Download.pull h.watched settings session input request ⟨resource, []⟩).run perform s).1 ∧
      ((Download.pull h settings session input request resource).run perform s).1 = Download.bare x ∧
      ∀ e a, x.1 = .failed e a → session.Reported settings.moduleName e a x.2.calls) ∧
    ∃ x, x = ((Download.pullList h.watched settings session input ⟨resource, []⟩).run perform s).1 ∧
      ((Download.pullList h settings session input resource).run perform s).1 = Download.bare x ∧
      ∀ e a, x.1 = .failed e a → session.Reported settings.moduleName e a x.2.calls := by
  refine ⟨⟨_, rfl, ?_, ?_, ?_⟩, ⟨_, rfl, ?_, ?_⟩, _, rfl, ?_, ?_⟩
  · exact Upload.run_seen h settings session input resource body perform s
  · exact fun e a hx =>
      ((Upload.concluded_seen h settings session input resource body perform s).1.failed e a hx).2 hreports
  · have hconcluded := (Upload.concluded_seen h settings session input resource body perform s).1
    exact hconcluded.told.over hconcluded.fired
  · rw [Download.pull_watched, Program.run_map]
  · exact Program.run_of_wp_any (Download.wp_pull_watched hreports) perform s
  · rw [Download.pullList_watched, Program.run_map]
  · exact Program.run_of_wp_any (Download.wp_pullList_watched hreports) perform s

/-- Three transfers that fail: an upload when its answer is asked for, a download of what is not there, and a
listing that cannot be made. -/
theorem failures_reported_gone :
    let h := Script.hooks
      { answer := some (.notFound "gone"), readable := .error (.notFound "nothing here"),
        payload := .error (.internal "no listing") }
    let session (direction : Direction) : Session := ⟨direction, true, 3, false, false, false, "op", some "HASH"⟩
    let perform (c : Call) (s : Unit) : Reply c.Answer × Unit := (.crashed "", s)
    h.Reports ∧
      (∃ x a, x = Upload.seen h {} (session .upload) "key" [] (.ofBytes [1, 2, 3]) perform () ∧
        x.1 = .failed (.notFound "gone") a ∧ a.status = 404 ∧ x.2.Over) ∧
      (∃ x a, x = ((Download.pull h.watched {} (session .download) "key" {} ⟨[], []⟩).run perform ()).1 ∧
        x.1 = .failed (.notFound "nothing here") a ∧ a.status = 404) ∧
      ∃ x a, x = ((Download.pullList h.watched {} (session .download) "key" ⟨[], []⟩).run perform ()).1 ∧
        x.1 = .failed (.internal "no listing") a ∧ a.status = 500 := by
  intro h session perform
  have hreports : h.Reports := Script.reports_hooks _
  obtain ⟨⟨x, rfl, -, hupload, hover⟩, -⟩ :=
    failures_reported hreports {} (session .upload) "key" {} [] (.ofBytes [1, 2, 3]) perform ()
  obtain ⟨-, ⟨y, rfl, -, hpull⟩, z, rfl, -, hlist⟩ :=
    failures_reported hreports {} (session .download) "key" {} [] (.ofBytes []) perform ()
  refine ⟨hreports, ⟨_, _, rfl, rfl, ?_, hover⟩, ⟨_, _, rfl, rfl, ?_⟩, _, _, rfl, rfl, ?_⟩
  · exact (hupload _ _ rfl).status
  · exact (hpull _ _ rfl).status
  · exact (hlist _ _ rfl).status

end Depot
