import Depot.Proofs.Stream.Barrier

/-!
# The end of a stream

What a read that brings nothing says. The barrier lets a read through before the read comes to the
stages, so the transfer can fail in between. A read that was let through and then finds the end says
so to its reader even when the transfer has failed; and stages that a drain has emptied look to it
like stages that it has read to their end.

## Main results

* `Parties.Inv.whole_of_end` — the reader misses nothing, unless a drain came first.
* `Parties.Inv.isComplete_settle_iff` — the end is that of a completed transfer unless it had failed by then.
-/

namespace Depot.Parties

variable {source : Source} {st : Stages} {wire : Bytes} {s t : Parties} {n : Nat} {b : Option Barrier}

namespace Inv

variable (h : Inv st wire s) (hr : s.reader = .leaving n (.ok []) b) (hn : n ≠ 0)
include h hr hn

/-- A reader that found the end was given everything, unless a drain came to the stages. -/
theorem whole_of_end (hs : s.seized = false) : s.Whole st wire := by
  cases b with
  | none =>
    rcases h.whole n (.inr hr) (h.quiet n hr hn) with hseized | hwhole
    · exact (Bool.false_ne_true (hs.symm.trans hseized)).elim
    · exact hwhole
  | some b =>
    rcases h.firing n (.ok []) b hr with ⟨e, f, he, -⟩ | ⟨-, -, hended⟩
    · cases he
    · exact (hended hs).whole

/-- A reader that found the end of a transfer still under way fires that it is complete. -/
theorem completes_of_pending (hp : s.barrier = .pending) :
    ∃ c, b = some c ∧ c.isComplete = true := by
  cases b with
  | none =>
    rcases h.finished (h.quiet n hr hn) with hb | ⟨_, _, _, hr'⟩
    · exact (hb hp).elim
    · rw [hr] at hr'
      cases hr'
  | some c =>
    rcases h.firing n (.ok []) c hr with ⟨e, f, he, -⟩ | ⟨-, hc, -⟩
    · cases he
    · exact ⟨c, rfl, hc⟩

/-- The barrier behind a read that found the end. -/
theorem isComplete_settle_iff :
    (b.elim s.stream s.stream.fire).barrier.isComplete = true ↔ s.barrier.failure? = none := by
  cases hb : s.barrier with
  | pending =>
    obtain ⟨c, rfl, hc⟩ := h.completes_of_pending hr hn hb
    rw [Option.elim, Stream.fire_of_pending hb]
    simp [hc, Barrier.failure?]
  | completed k d =>
    obtain ⟨-, rfl⟩ := h.behindEnd (by rw [hb]; rfl) n _ b hr
    have hb' : s.stream.barrier = .completed k d := hb
    simp [hb', Barrier.isComplete, Barrier.failure?]
  | failed f =>
    have hstream : b.elim s.stream s.stream.fire = s.stream := by
      cases b with
      | none => rfl
      | some c => exact Stream.fire_of_fired (by rw [show s.stream.barrier = _ from hb]; simp) c
    rw [hstream, show s.stream.barrier = _ from hb]
    simp [Barrier.isComplete, Barrier.failure?]

end Inv

/-- A read with room for some bytes ends with none. Its reader was given the whole output, and the
transfer is complete, exactly if the transfer had not failed since the read was let through; and the
reader was given the whole output in any case if no drain has come to the stages. -/
theorem end_of_stream_iff (hs : Later (start source st) s) (hr : s.reader = .leaving n (.ok []) b)
    (hn : n ≠ 0) : ∃ t, s.step .settle = some (.read (.ok []), t) ∧
      (t.Whole st source.bytes ∧ t.barrier.isComplete = true ↔ s.barrier.failure? = none) ∧
      (s.seized = false → t.Whole st source.bytes) := by
  have hinv := hs.inv
  refine ⟨{ s with stream := b.elim s.stream s.stream.fire, reader := .idle }, ?_, ?_, ?_⟩
  · simp [step, hr]
  · refine ⟨fun h => (hinv.isComplete_settle_iff hr hn).mp h.2, fun hb => ⟨?_, ?_⟩⟩
    · refine hinv.whole_of_end hr hn ?_
      cases hseized : s.seized with
      | false => rfl
      | true =>
        obtain ⟨f, hf⟩ := hinv.seized hseized
        rw [hf] at hb
        cases hb
    · exact (hinv.isComplete_settle_iff hr hn).mpr hb
  · exact fun hseized => hinv.whole_of_end hr hn hseized

/-- Three bytes that a reader takes in two reads. -/
theorem end_of_stream_three : ∃ s t, (start (.ofBytes [1, 2, 3]) {}).play
    [.look 8, .work, .settle, .look 8, .work] = some s ∧ s.step .settle = some (.read (.ok []), t) ∧
      t.Whole {} [1, 2, 3] ∧ t.barrier.isComplete = true := by
  obtain ⟨s, hs, hr, hb⟩ : ∃ s, (start (.ofBytes [1, 2, 3]) {}).play
      [.look 8, .work, .settle, .look 8, .work] = some s ∧
      s.reader = .leaving 8 (.ok []) (some (.completed 3 none)) ∧ s.barrier.failure? = none :=
    ⟨_, rfl, rfl, rfl⟩
  obtain ⟨t, ht, hwhole, -⟩ := end_of_stream_iff (later_play hs) hr (by decide)
  exact ⟨s, t, hs, ht, hwhole.mpr hb⟩

/-- A drain that comes between the two steps of a read takes the payload, and the reader is told that
it ends after nothing. -/
theorem end_after_drain : ¬ ∀ (source : Source) (st : Stages) (s t : Parties) (n : Nat)
    (b : Option Barrier), source.Clean → Later (start source st) s → n ≠ 0 →
      s.reader = .leaving n (.ok []) b → s.step .settle = some (.read (.ok []), t) →
      t.Whole st source.bytes ∧ t.barrier.isComplete = true := by
  intro h
  obtain ⟨s, hs, hr, t, ht, hreceived⟩ : ∃ s, (start (.ofBytes [1, 2, 3]) {}).play
      [.look 8, .drain, .discard 2, .work] = some s ∧ s.reader = .leaving 8 (.ok []) none ∧
      ∃ t, s.step .settle = some (.read (.ok []), t) ∧ t.received = [] := ⟨_, rfl, rfl, _, rfl, rfl⟩
  obtain ⟨⟨plain, rfl, houtput⟩, -⟩ :=
    h _ _ s t 8 none (Source.clean_ofBytes _) (later_play hs) (by decide) hr ht
  rw [hreceived] at houtput
  cases houtput

end Depot.Parties
