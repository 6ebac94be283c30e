import Depot.Proofs.Consumer
import Depot.Proofs.Transfer.Watch

/-!
# What a consumer hears of a stream

A consumer that writes down what it is given of a stream, driven in any way. It was told of the end exactly if
the transfer is complete, and then it was given all of the output.

## Main results

* `Stream.Listens.read`, `Stream.Listens.gather` — reading once, and reading on and on.
* `Consumer.wp_drive_recording` — how a consumer stops.
* `Stream.Sealed.read` — nobody gets anything of a stream whose barrier was fired.
-/

namespace Depot

namespace Stream

variable {source : Source} {st : Stages} {s s' : Stream} {n size fuel : Nat} {r : ReadResult} {g : Heard}

/-! ## Completing -/

/-- Only a read that finds the end completes a transfer. -/
theorem work_completes {b : Barrier} (h : (s.work n).2.1 = some b) (hb : b.isComplete = true) :
    (s.work n).1 = .ok [] ∧ n ≠ 0 := by
  rw [work] at h ⊢
  split at h
  · cases h
  · rename_i hopen
    rw [if_neg hopen]
    split at h <;> split at h
    · rename_i hend
      rw [if_pos hend]
      exact ⟨rfl, hend.2⟩
    · cases h
    · cases h
    · cases h
      cases hb

theorem read_completes (h : s.read n = (r, s')) (hs : s.barrier.isComplete = false)
    (hs' : s'.barrier.isComplete = true) : r = .ok [] ∧ n ≠ 0 := by
  rw [Stream.read] at h
  split at h
  · obtain ⟨-, rfl⟩ := Prod.mk.inj h
    exact absurd (hs.symm.trans hs') Bool.false_ne_true
  · obtain ⟨rfl, rfl⟩ := Prod.mk.inj h
    have hkept : (s.work n).2.2.barrier = s.barrier := barrier_work s n
    change ((s.work n).2.1.elim (s.work n).2.2 (s.work n).2.2.fire).barrier.isComplete = true at hs'
    cases hb : (s.work n).2.1 with
    | none =>
      rw [hb, Option.elim, hkept] at hs'
      exact absurd (hs.symm.trans hs') Bool.false_ne_true
    | some b =>
      rw [hb, Option.elim] at hs'
      refine work_completes hb ?_
      by_cases hpending : s.barrier = .pending
      · rwa [fire_of_pending (hkept.trans hpending)] at hs'
      · rw [fire_of_fired (by rwa [hkept]), hkept] at hs'
        exact absurd (hs.symm.trans hs') Bool.false_ne_true

theorem gatherLoop_completes {limit : Option Nat} {acc : List Bytes} (hs : s.barrier.isComplete = false)
    (h : (gatherLoop size fuel limit acc s).stream.barrier.isComplete = true) :
    ∃ more, (gatherLoop size fuel limit acc s).bytes = acc.reverse.flatten ++ more ∧
      (gatherLoop size fuel limit acc s).error = none ∧ ∀ l, limit = some l → more.length < l := by
  induction fuel generalizing limit acc s with
  | zero => exact absurd (hs.symm.trans h) Bool.false_ne_true
  | succ fuel ih =>
    rw [gatherLoop] at h ⊢
    split at h
    · exact absurd (hs.symm.trans h) Bool.false_ne_true
    · rename_i hlimit
      rw [if_neg hlimit]
      split at h
      · refine ⟨[], by simp, rfl, ?_⟩
        rintro l rfl
        exact Nat.pos_of_ne_zero fun hl => hlimit (congrArg some hl)
      · rename_i out s' hnil hread
        have hs' : s'.barrier.isComplete = false := by
          rw [← Bool.not_eq_true]
          exact fun hdone => hnil (Except.ok.inj (read_completes hread hs hdone).1)
        obtain ⟨more, hbytes, herror, hshort⟩ := ih hs' h
        refine ⟨out ++ more, by simp [hbytes], herror, ?_⟩
        rintro l rfl
        have hless : more.length < l - out.length := hshort _ rfl
        rw [List.length_append]
        omega
      · rename_i e s' hread
        have hs' : s'.barrier.isComplete = false := by
          rw [← Bool.not_eq_true]
          exact fun hdone => by cases (read_completes hread hs hdone).1
        split at h
        · rename_i hkind
          rw [if_pos hkind]
          exact ih hs' h
        · exact absurd (hs'.symm.trans h) Bool.false_ne_true

/-- Only reading on to the end completes a transfer. -/
theorem gather_completes {limit : Option Nat} (hs : s.barrier.isComplete = false)
    (h : (s.gather size limit).stream.barrier.isComplete = true) :
    (s.gather size limit).error = none ∧ ∀ l, limit = some l → (s.gather size limit).bytes.length < l := by
  obtain ⟨more, hbytes, herror, hshort⟩ := gatherLoop_completes hs h
  refine ⟨herror, fun l hl => ?_⟩
  rw [gather, hbytes]
  exact hshort l hl

/-! ## Listening -/

/-- A stream over a source, in the hands of a reader that has written down what it was given. -/
structure Listens (source : Source) (st : Stages) (s : Stream) (g : Heard) : Prop where
  held : Held source st s g.bytes
  ended : g.ended = s.barrier.isComplete

theorem listens_start (source : Source) (st : Stages) :
    Listens source st { pipeline := { source := source, stages := st } } {} :=
  ⟨held_start source st, rfl⟩

theorem isNothing_iff : r.isNothing = true ↔ r = .ok [] := by
  rcases r with e | _ | ⟨b, rest⟩ <;> simp [ReadResult.isNothing]

theorem Listens.read (h : Listens source st s g) (hr : s.read n = (r, s')) :
    Listens source st s' (g.read n r) := by
  have hstep := h.held.read hr
  refine ⟨hstep.held, ?_⟩
  rw [Heard.read, Bool.eq_iff_iff, Bool.or_eq_true, h.ended, Bool.and_eq_true, bne_iff_ne, isNothing_iff]
  constructor
  · exact fun hs => hstep.isComplete (hs.imp_right And.symm)
  · intro hs'
    cases hs : s.barrier.isComplete with
    | true => exact .inl rfl
    | false => exact .inr (read_completes hr hs hs').symm

theorem Listens.gather (h : Listens source st s g) (hsize : size ≠ 0) (limit : Option Nat) :
    Listens source st (s.gather size limit).stream
      (g.gather limit (s.gather size limit).bytes (s.gather size limit).error) := by
  have hmore := h.held.gather hsize limit
  refine ⟨hmore.held, ?_⟩
  rw [Heard.gather, Bool.eq_iff_iff, Bool.or_eq_true, h.ended, Bool.and_eq_true, Option.isNone_iff_eq_none]
  constructor
  · intro hs
    refine hmore.isComplete (hs.imp_right fun ⟨herror, hshort⟩ => ⟨herror, fun l hl => ?_⟩)
    simpa [hl] using hshort
  · intro hs'
    cases hs : s.barrier.isComplete with
    | true => exact .inl rfl
    | false =>
      obtain ⟨herror, hshort⟩ := gather_completes hs hs'
      refine .inr ⟨herror, ?_⟩
      cases limit with
      | none => rfl
      | some l => simpa using hshort l rfl

/-! ## Sealed streams -/

/-- Whether the stages of a stream are done for if its barrier is complete. -/
def Sealed (s : Stream) : Prop := s.barrier.isComplete = true → s.pipeline.finished = true

theorem Listens.sealed (h : Listens source st s g) : s.Sealed := by
  obtain ⟨p, hlater, rfl, -⟩ := h.held
  exact fun hs => (hlater.inv.completed hs).1

theorem isComplete_fail (s : Stream) (f : Failure) :
    (s.fire (.failed f)).barrier.isComplete = s.barrier.isComplete := by
  by_cases hs : s.barrier = .pending
  · rw [fire_of_pending hs, hs]
    rfl
  · rw [fire_of_fired hs]

theorem barrier_drain (s : Stream) : s.drain.2.barrier = (s.fire (.failed .aborted)).barrier := by
  rw [drain, discard]
  dsimp only
  split <;> rfl

theorem Sealed.fail (h : s.Sealed) (f : Failure) : (s.fire (.failed f)).Sealed := by
  by_cases hs : s.barrier = .pending
  · rw [fire_of_pending hs]
    exact nofun
  · rwa [fire_of_fired hs]

theorem sealed_of_pending (h : s.barrier = .pending) : s.Sealed := by
  intro hs
  rw [h] at hs
  cases hs

/-- Nobody gets anything of a stream whose barrier was fired: a read fails, or finds the end again. -/
theorem Sealed.read (h : s.Sealed) (hs : s.barrier ≠ .pending) (n : Nat) :
    (∃ e, s.read n = (.error e, s)) ∨ s.barrier.isComplete = true ∧ s.read n = (.ok [], s) := by
  cases hc : s.barrier.isComplete with
  | true =>
    have hmay : s.mayRead = .ok () := by
      rw [mayRead]
      cases hb : s.barrier with
      | completed n d => rfl
      | pending => exact absurd hb hs
      | failed f => simp [hb, Barrier.isComplete] at hc
    refine .inr ⟨rfl, ?_⟩
    rw [Stream.read, hmay]
    show ((s.work n).1, (s.work n).2.1.elim (s.work n).2.2 (s.work n).2.2.fire) = _
    rw [work_of_finished (h hc)]
    rfl
  | false =>
    obtain ⟨f, hf⟩ := Barrier.failed_of_fired hs (by simp [hc])
    exact .inl ⟨f.readError, by simp [Stream.read, mayRead, hf, Barrier.failure?]⟩

end Stream

/-! ## Driving -/

namespace Consumer

open Depot.Stream (Listens)

variable {α : Type} {source : Source} {st : Stages} {s : Stream} {g : Heard} {patience : Nat}

/-- How a consumer stops that writes down what it is given. -/
inductive Recorded (source : Source) (st : Stages) : Handover (Heard × α) → Prop
  /-- The consumer has let go of the stream. -/
  | finished {s : Stream} {g : Heard} {a : α} {patience : Nat} (h : Listens source st s g) :
      Recorded source st ⟨.finished (g, a), s.release, patience⟩
  /-- The consumer has to wait, or sleeps for too long. -/
  | stalled {h : Handover (Heard × α)} (hresult : h.progress.result? = none)
      (hpending : h.stream.barrier = .pending) : Recorded source st h

theorem wp_drive_recording (c : Consumer α) (h : Listens source st s g) (w : Unit) :
    ((c.recording g).drive patience s).wp .any (fun h _ => Recorded source st h) w := by
  induction c generalizing s g patience w with
  | done a => exact .finished h
  | read n next ih =>
    rw [recording, drive]
    split
    · rename_i out s' hread
      exact ih _ (h.read hread) w
    · rename_i e s' hread
      split
      · rename_i hkind
        exact .stalled rfl ((h.held.read hread).waits e rfl hkind)
      · exact ih _ (h.read hread) w
  | gather limit got next ih =>
    have hsize : chunk ≠ 0 := by decide
    have hmore := h.held.gather hsize limit
    have hnext := h.gather hsize limit
    rw [recording, drive]
    split
    · rename_i hwaits
      obtain ⟨e, he, hkind⟩ := (Option.any_eq_true _ _).mp hwaits
      exact .stalled rfl (hmore.waits e he (by simpa using hkind))
    · refine ih _ _ ?_ w
      simpa using hnext
  | pause ms next ih =>
    rw [recording, drive]
    split
    · rename_i hsleeps
      exact .stalled rfl hsleeps.1
    · exact ih h w
  | call c next ih => exact fun r => ih r h w

end Consumer

end Depot
