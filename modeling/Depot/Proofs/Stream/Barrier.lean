import Depot.Proofs.Stream.Parties

/-!
# The barrier of a stream

A barrier that was fired stays as it is, whatever the parties do next. One that completed tells the
truth about the source, and from then on everybody is told the same; one that failed turns everybody
away.

## Main results

* `Parties.Later.barrier_eq` — a fired barrier never changes.
* `Parties.Inv.toldComplete`, `Parties.toldFailed` — what every party is told of a fired barrier.
-/

namespace Depot.Parties

variable {source : Source} {st : Stages} {wire : Bytes} {s t : Parties}

/-! ## Firing once -/

theorem barrier_step {m : Move} {a : Reaction} (h : s.barrier ≠ .pending)
    (hstep : s.step m = some (a, t)) : t.barrier = s.barrier := by
  cases m with
  | look n =>
    simp only [step] at hstep
    split at hstep <;> cases hstep <;> rfl
  | work =>
    simp only [step] at hstep
    split at hstep
    · cases hstep
      exact Stream.barrier_work ..
    · cases hstep
  | settle =>
    simp only [step] at hstep
    split at hstep
    · rename_i r b _
      cases hstep
      cases b with
      | none => rfl
      | some b => exact congrArg Stream.barrier (Stream.fire_of_fired h b)
    · cases hstep
  | release =>
    simp only [step] at hstep
    split at hstep <;> cases hstep
    exact congrArg Stream.barrier (Stream.fire_of_fired h _)
  | wait ms =>
    simp only [step, Stream.waitFor_stream] at hstep
    cases hstep
    exact congrArg Stream.barrier (Stream.fire_of_fired h _)
  | digest => cases hstep; rfl
  | abort =>
    cases hstep
    exact congrArg Stream.barrier (Stream.fire_of_fired h _)
  | drain =>
    cases hstep
    exact congrArg Stream.barrier (Stream.fire_of_fired h _)
  | discard reads =>
    simp only [step, Stream.discard] at hstep
    split at hstep
    · cases hstep
    · split at hstep <;> cases hstep <;> rfl

/-- A fired barrier never changes. -/
theorem Later.barrier_eq (h : Later s t) (hs : s.barrier ≠ .pending) : t.barrier = s.barrier := by
  induction h with
  | refl => rfl
  | step _ hstep ih => exact (barrier_step (ih ▸ hs) hstep).trans ih

/-! ## What the parties are told -/

/-- What everybody is told once the barrier has completed with `n` bytes. -/
structure ToldComplete (n : Nat) (digest : Except TransferError String) (t : Parties) : Prop where
  wait : ∀ ms, t.step (.wait ms) = some (.waited (.ok n), t)
  digest : t.step .digest = some (.digest digest, t)
  abort : t.step .abort = some (.aborted false, t)
  look : ∀ k, t.reader = .idle → t.step (.look k) = some (.nothing, { t with reader := .admitted k })
  work : ∀ k, t.reader = .admitted k →
    t.step .work = some (.nothing, { t with reader := .leaving k (.ok []) none })
  settle : ∀ a u, t.step .settle = some (a, u) → a = .read (.ok []) ∧ u = { t with reader := .idle }

/-- What everybody is told once the barrier has failed. -/
structure ToldFailed (t : Parties) : Prop where
  wait : ∀ ms, ∃ e, t.step (.wait ms) = some (.waited (.error e), t)
  digest : ∃ m, t.step .digest = some (.digest (.error (.invalidState m)), t)
  abort : t.step .abort = some (.aborted false, t)
  look : ∀ k, t.reader = .idle → ∃ e, t.step (.look k) = some (.read (.error e), t)

theorem Inv.toldComplete (h : Inv st wire t) {n : Nat} {d : Option Bytes}
    (hb : t.barrier = .completed n d) : ToldComplete n t.stream.digest t := by
  have hc : t.barrier.isComplete = true := by rw [hb]; rfl
  have hfired : t.barrier ≠ .pending := by rw [hb]; simp
  have hb' : t.stream.barrier = .completed n d := hb
  refine {
    wait := fun ms => ?_
    digest := rfl
    abort := ?_
    look := fun k hr => ?_
    work := fun k hr => ?_
    settle := fun a u hu => ?_ }
  · simp [step, Stream.waitFor, Stream.outcome?, hb']
  · simp [step, Stream.abort, Stream.fire_of_fired hfired, hb']
  · simp [step, hr, Stream.mayRead, Barrier.failure?, hb']
  · simp [step, hr, Stream.work_of_finished (h.completed hc).1]
  · simp only [step] at hu
    split at hu
    · rename_i k r b hr
      cases hu
      obtain ⟨rfl, rfl⟩ := h.behindEnd hc k r b hr
      exact ⟨rfl, rfl⟩
    · cases hu

theorem toldFailed {f : Failure} (hb : t.barrier = .failed f) : ToldFailed t := by
  have hfired : t.barrier ≠ .pending := by rw [hb]; simp
  have hb' : t.stream.barrier = .failed f := hb
  refine {
    wait := fun ms => ⟨f.error, ?_⟩
    digest := ⟨"digest is only available after the stream completed", ?_⟩
    abort := ?_
    look := fun k hr => ⟨f.readError, ?_⟩ }
  · simp [step, Stream.waitFor, Stream.outcome?, hb']
  · simp [step, Stream.digest, hb']
  · simp [step, Stream.abort, Stream.fire_of_fired hfired, hb']
  · simp [step, hr, Stream.mayRead, Barrier.failure?, hb']

/-- For every order of steps: a fired barrier never changes; one that completed says how many bytes
the source has as plaintext, and their digest if that was asked for, all of which went by the tap to
the reader and none to a drain; and from then on everybody is told what it says. -/
theorem barrier_sound (hs : Later (start source st) s) (ht : Later s t) :
    (s.barrier ≠ .pending → t.barrier = s.barrier) ∧
      (∀ n d, s.barrier = .completed n d →
        (∃ plain, st.Plain source.bytes plain ∧ s.stream.pipeline.tap.Counts st.digest true plain ∧
          s.received = st.output plain ∧ s.drained = 0 ∧ n = plain.length ∧
          d = if st.digest then some (Sha256.digest plain) else none) ∧
        ToldComplete n s.stream.digest t) ∧
      (∀ f, s.barrier = .failed f → ToldFailed t) := by
  refine ⟨ht.barrier_eq, fun n d hb => ⟨?_, ?_⟩, fun f hb => ?_⟩
  · have hinv := hs.inv
    obtain ⟨-, hseized, plain, hdone, hplain⟩ := hinv.completed (by rw [hb]; rfl)
    rw [hb, Barrier.completing] at hplain
    injection hplain with hn hd
    exact ⟨plain, hdone.plain, hdone.tap, hdone.output, hinv.spared hseized, hn, hd⟩
  · have heq := ht.barrier_eq (by rw [hb]; simp)
    have hdigest : s.stream.digest = t.stream.digest := by
      simp only [Stream.digest]
      rw [show t.stream.barrier = s.stream.barrier from heq]
    rw [hdigest]
    exact (hs.trans ht).inv.toldComplete (heq.trans hb)
  · exact toldFailed ((ht.barrier_eq (by rw [hb]; simp)).trans hb)

/-- Two bytes that are read in two reads, with their digest. -/
theorem barrier_sound_pair : ∃ t, (start (.ofBytes [97, 98]) { digest := true }).play
    [.look 4, .work, .settle, .look 4, .work, .settle] = some t ∧
      t.barrier = .completed 2 (some (Sha256.digest [97, 98])) ∧
      ToldComplete 2 t.stream.digest t := by
  obtain ⟨t, ht, hb⟩ : ∃ t, (start (.ofBytes [97, 98]) { digest := true }).play
      [.look 4, .work, .settle, .look 4, .work, .settle] = some t ∧
      t.barrier = .completed 2 (some (Sha256.digest [97, 98])) := ⟨_, rfl, rfl⟩
  exact ⟨t, ht, hb, ((barrier_sound (later_play ht) .refl).2.1 _ _ hb).2⟩

end Depot.Parties
