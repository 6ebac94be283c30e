import Depot.Proofs.Stream.Faultless
import Depot.Proofs.Transfer.Recording

/-!
# Streams over bodies without errors

A stream over a body that raises no errors of its own is done for at the end of the body, or where the decoding
failed. So a drain that comes to an end has read the body to its end, unless the decoding failed: then nothing of
what follows is read.

## Main results

* `Stream.Unspoilt.read` — what one read preserves.
* `Stream.Unspoilt.isSome_drain` — a drain comes to an end where all has arrived and nothing is decoded.
* `Stream.Unspoilt.drain` — what a drain leaves unread.
-/

namespace Depot

open ReadResult (Honest)

/-! ## The stages -/

namespace Pipeline

variable {p p' : Pipeline} {n : Nat} {r : ReadResult} {inflates : Bool}

/-- Stages without compression over a source that raises no errors; they decompress only if that is allowed. -/
structure Unspoilt (inflates : Bool) (p : Pipeline) : Prop where
  compress : p.stages.compress = false
  decompress : p.stages.decompress = true → inflates = true
  inflate : p.inflate.Unspoilt p.source

theorem Unspoilt.readSource {source : Source} (h : p.Unspoilt inflates) (hr : p.source.read n = (r, source)) :
    Unspoilt inflates { p with source := source } ∧ Honest inflates n r source := by
  have hfaultless : source.Faultless := (h.inflate.source.read hr).1
  refine ⟨⟨h.compress, h.decompress, hfaultless, h.inflate.sourceFailed, fun he => (h.inflate.ended he).read hr⟩,
    ?_, fun e he => .inl (h.inflate.source.transient hr he)⟩
  rintro rfl hn
  exact Source.atEnd_of_end hn hr

theorem Unspoilt.readPlain (h : p.Unspoilt inflates) (hr : p.readPlain n = (r, p')) :
    p'.Unspoilt inflates ∧ Honest inflates n r p'.source := by
  cases hd : p.stages.decompress with
  | false =>
    obtain ⟨rfl, rfl⟩ := Prod.mk.inj ((readPlain_bare hd).symm.trans hr)
    obtain ⟨hunspoilt, hhonest⟩ := h.readSource (Prod.eta (p.source.read n)).symm
    exact ⟨⟨hunspoilt.compress, hunspoilt.decompress, hunspoilt.inflate⟩, hhonest⟩
  | true =>
    obtain ⟨rfl, rfl⟩ := Prod.mk.inj ((readPlain_decompress hd).symm.trans hr)
    obtain ⟨hunspoilt, hhonest⟩ := h.inflate.read (n := n) (Prod.eta _).symm
    refine ⟨⟨h.compress, h.decompress, hunspoilt⟩, ?_⟩
    rw [h.decompress hd]
    exact hhonest

theorem Unspoilt.build (h : p.Unspoilt inflates) : p.build.Unspoilt inflates := by
  rw [Pipeline.build]
  split
  · exact h
  · exact ⟨h.compress, h.decompress, h.inflate⟩

theorem Unspoilt.readBuilt (h : p.Unspoilt inflates) (hr : p.readBuilt n = (r, p')) :
    p'.Unspoilt inflates ∧ Honest inflates n r p'.source := by
  rw [Pipeline.readBuilt, h.compress, if_neg Bool.false_ne_true] at hr
  exact h.readPlain hr

theorem Unspoilt.readRemainder (h : p.Unspoilt inflates) (hr : p.readRemainder n = (r, p')) :
    p'.Unspoilt inflates ∧ Honest inflates n r p'.source := by
  rw [Pipeline.readRemainder] at hr
  split at hr
  · exact h.readBuilt hr
  · obtain ⟨rfl, rfl⟩ := Prod.mk.inj hr
    exact h.readSource (Prod.eta _).symm

/-- What is read as it is comes off the source, whether the stages were put together or not. -/
theorem Unspoilt.readRemainder_bare (h : p.Unspoilt inflates) (hbare : p.stages.decompress = false)
    (hr : p.readRemainder n = (r, p')) : p.source.read n = (r, p'.source) ∧ p'.stages = p.stages := by
  rw [Pipeline.readRemainder] at hr
  split at hr
  · rw [Pipeline.readBuilt, h.compress, if_neg Bool.false_ne_true, readPlain_bare hbare] at hr
    obtain ⟨rfl, rfl⟩ := Prod.mk.inj hr
    exact ⟨rfl, rfl⟩
  · obtain ⟨rfl, rfl⟩ := Prod.mk.inj hr
    exact ⟨rfl, rfl⟩

end Pipeline

namespace Stream

variable {s s' : Stream} {n : Nat} {r : ReadResult} {inflates : Bool}

/-- The error that a drain of at most `fuel` reads stops at. -/
def drainError : Nat → Pipeline → Option ReadError
  | 0, _ => none
  | fuel + 1, p =>
    match p.readRemainder drainChunk with
    | (.ok [], _) => none
    | (.ok _, p) => drainError fuel p
    | (.error e, p) => if e.kind = .interrupted then drainError fuel p else some e

/-- Whether the decoding failed: in the hands of the reader, or in those of a drain. -/
def Undecoded (s : Stream) : Prop :=
  (∃ m, s.barrier = .failed (.read true m)) ∨
    ∃ e, drainError s.pipeline.weight s.pipeline = some e ∧ e.codec = true

/-- A stream over a body that raises no errors, such that its stages are done for only at the end of the body, or
where the decoding failed. -/
structure Unspoilt (inflates : Bool) (s : Stream) : Prop where
  pipeline : s.pipeline.Unspoilt inflates
  sealed : s.Sealed
  finished : s.pipeline.finished = true →
    s.pipeline.source.AtEnd ∨ inflates = true ∧ ∃ m, s.barrier = .failed (.read true m)

theorem Unspoilt.fail (h : s.Unspoilt inflates) (f : Failure) : (s.fire (.failed f)).Unspoilt inflates := by
  by_cases hs : s.barrier = .pending
  · have hsealed := h.sealed.fail f
    rw [fire_of_pending hs] at hsealed ⊢
    refine ⟨h.pipeline, hsealed, fun hf => ?_⟩
    rcases h.finished hf with hend | ⟨-, m, hm⟩
    · exact .inl hend
    · rw [hs] at hm
      cases hm
  · rwa [fire_of_fired hs]

/-- A read that was let through leaves its mark on stages that are done for. -/
theorem Unspoilt.pull (h : s.Unspoilt inflates) (hmay : s.barrier.failure? = none) (n : Nat) :
    (s.pull n).2.Unspoilt inflates := by
  cases hf : s.pipeline.finished with
  | true =>
    rw [Stream.pull, work_of_finished hf]
    exact h
  | false =>
    have hpending : s.barrier = .pending := by
      cases hb : s.barrier with
      | pending => rfl
      | failed f =>
        rw [hb] at hmay
        cases hmay
      | completed m d =>
        have hfinished := h.sealed (by rw [hb]; rfl)
        exact absurd (hf.symm.trans hfinished) Bool.false_ne_true
    obtain ⟨hpipeline, hhonest⟩ := h.pipeline.build.readBuilt (n := n) (Prod.eta _).symm
    have hopen : (s.pipeline.build.readBuilt n).2.finished = false := by
      rw [(Pipeline.kept_readBuilt (Prod.eta _).symm).finished, Pipeline.finished_build, hf]
    rw [Stream.pull, work, if_neg (by simp [hf])]
    generalize s.pipeline.build.readBuilt n = x at *
    obtain ⟨e | out, p⟩ := x
    · cases he : e.kind.isTransient with
      | true =>
        simp only [he, if_true, Option.elim]
        exact ⟨hpipeline, sealed_of_pending hpending, fun hp => absurd (hopen.symm.trans hp) Bool.false_ne_true⟩
      | false =>
        simp only [he, if_false, Bool.false_eq_true, Option.elim, fire, hpending]
        refine ⟨⟨hpipeline.compress, hpipeline.decompress, hpipeline.inflate⟩, (fun hs => by cases hs),
          fun _ => ?_⟩
        rcases hhonest.failed e rfl with htransient | ⟨hinflates, hcodec⟩
        · exact absurd (he.symm.trans htransient) Bool.false_ne_true
        · exact .inr ⟨hinflates, e.message, by rw [hcodec]⟩
    · by_cases hend : out.isEmpty = true ∧ n ≠ 0
      · simp only [if_pos hend, Option.elim, fire, hpending]
        obtain rfl := List.isEmpty_iff.mp hend.1
        exact ⟨⟨hpipeline.compress, hpipeline.decompress, hpipeline.inflate⟩, fun _ => rfl,
          fun _ => .inl (hhonest.ended rfl hend.2)⟩
      · simp only [if_neg hend, Option.elim]
        exact ⟨hpipeline, sealed_of_pending hpending, fun hp => absurd (hopen.symm.trans hp) Bool.false_ne_true⟩

theorem Unspoilt.read (h : s.Unspoilt inflates) (hr : s.read n = (r, s')) : s'.Unspoilt inflates := by
  rw [Stream.read, mayRead] at hr
  cases hmay : s.barrier.failure? with
  | some f =>
    rw [hmay] at hr
    obtain ⟨-, rfl⟩ := Prod.mk.inj hr
    exact h
  | none =>
    rw [hmay] at hr
    have hpull := h.pull hmay n
    rwa [show s.pull n = (r, s') from hr] at hpull

theorem Unspoilt.gatherLoop {size fuel : Nat} {limit : Option Nat} {got : List Bytes} (h : s.Unspoilt inflates) :
    (Stream.gatherLoop size fuel limit got s).stream.Unspoilt inflates := by
  induction fuel generalizing limit got s with
  | zero => exact h
  | succ fuel ih =>
    rw [Stream.gatherLoop]
    split
    · exact h
    · split
      · rename_i hread
        exact h.read hread
      · rename_i hread
        exact ih (h.read hread)
      · rename_i hread
        split
        · exact ih (h.read hread)
        · exact h.read hread

/-- A drain that comes to an end of its own has read on to the end of the body, or the decoding failed. -/
theorem drainLoop_unspoilt {p : Pipeline} {fuel total : Nat} (h : p.Unspoilt inflates)
    (hdone : (drainLoop fuel p total).1.2 = true) : (drainLoop fuel p total).2.source.AtEnd ∨
      inflates = true ∧ ∃ e, drainError fuel p = some e ∧ e.codec = true := by
  induction fuel generalizing p total with
  | zero => cases hdone
  | succ fuel ih =>
    obtain ⟨hunspoilt, hhonest⟩ := h.readRemainder (n := drainChunk) (Prod.eta _).symm
    rw [drainLoop] at hdone ⊢
    rw [drainError]
    generalize p.readRemainder drainChunk = x at *
    obtain ⟨e | _ | ⟨b, out⟩, q⟩ := x
    · by_cases hkind : e.kind = .interrupted
      · simp only [if_pos hkind] at hdone ⊢
        exact ih hunspoilt hdone
      · simp only [if_neg hkind] at hdone ⊢
        rcases hhonest.failed e rfl with htransient | ⟨hinflates, hcodec⟩
        · -- nothing has arrived, so the drain did not come to an end
          have hpending : e.kind ≠ .pending := by simpa using hdone
          simp [ErrorKind.isTransient, hkind, hpending] at htransient
        · exact .inr ⟨hinflates, e, rfl, hcodec⟩
    · exact .inl (hhonest.ended rfl (by decide))
    · exact ih hunspoilt hdone

/-- A drain that has reads enough comes to an end of its own where everything has arrived that is to be read as it
is. -/
theorem drainLoop_ends {p : Pipeline} {fuel total : Nat} (h : p.Unspoilt inflates)
    (hbare : p.stages.decompress = false) (hclosed : p.source.isOpen = false) (hfuel : p.source.weight < fuel) :
    (drainLoop fuel p total).1.2 = true := by
  induction fuel generalizing p total with
  | zero => omega
  | succ fuel ih =>
    have hunspoilt := (h.readRemainder (n := drainChunk) (Prod.eta _).symm).1
    obtain ⟨hread, hstages⟩ := h.readRemainder_bare hbare (n := drainChunk) (Prod.eta _).symm
    rw [drainLoop]
    generalize p.readRemainder drainChunk = x at *
    obtain ⟨r, q⟩ := x
    dsimp only at *
    have hnext (total : Nat) (hr : r ≠ .ok []) : (drainLoop fuel q total).1.2 = true := by
      obtain ⟨hopen, hless⟩ := Source.weight_read (by decide) hclosed hread hr
      exact ih hunspoilt (hstages ▸ hbare) hopen (by omega)
    obtain e | _ | ⟨b, out⟩ := r
    · have hkind : e.kind = .interrupted := by
        rcases (h.inflate.source.read hread).2 e rfl with hkind | ⟨-, hopen⟩
        · exact hkind
        · exact absurd (hclosed.symm.trans hopen) Bool.false_ne_true
      dsimp only
      rw [if_pos hkind]
      exact hnext _ fun hnil => by cases hnil
    · rfl
    · exact hnext _ fun hnil => by cases hnil

theorem started_fire (s : Stream) (b : Barrier) : (s.fire b).started = s.started := by
  rw [fire]
  split <;> rfl

theorem started_drain (s : Stream) : s.drain.2.started = s.started := by
  rw [Stream.drain, Stream.discard]
  dsimp only
  split <;> exact started_fire s _

theorem drain_of_finished (hf : s.pipeline.finished = true) : s.drain = (some 0, s.fire (.failed .aborted)) := by
  rw [Stream.drain, discard, pipeline_fire, if_pos hf]
  rfl

theorem drain_of_open (hf : s.pipeline.finished = false) : s.drain =
    (if (drainLoop s.pipeline.weight s.pipeline 0).1.2 then some (drainLoop s.pipeline.weight s.pipeline 0).1.1
      else none,
      { s.fire (.failed .aborted) with pipeline := (drainLoop s.pipeline.weight s.pipeline 0).2 }) := by
  rw [Stream.drain, discard, pipeline_fire, if_neg (by simp [hf])]

/-- A drain comes to an end of its own where everything has arrived that is to be read as it is. -/
theorem Unspoilt.isSome_drain (h : s.Unspoilt inflates) (hbare : s.pipeline.stages.decompress = false)
    (hclosed : s.pipeline.source.isOpen = false) : s.drain.1.isSome = true := by
  cases hf : s.pipeline.finished with
  | true =>
    rw [drain_of_finished hf]
    rfl
  | false =>
    have hfuel : s.pipeline.source.weight < s.pipeline.weight := by
      rw [Pipeline.weight]
      omega
    rw [drain_of_open hf, drainLoop_ends h.pipeline hbare hclosed hfuel]
    rfl

/-- What a drain leaves unread that came to an end of its own. -/
theorem Unspoilt.drain (h : s.Unspoilt inflates) (hdone : s.drain.1.isSome = true) :
    s.drain.2.pipeline.source.AtEnd ∨ inflates = true ∧ s.Undecoded := by
  cases hf : s.pipeline.finished with
  | true =>
    rw [drain_of_finished hf, pipeline_fire]
    rcases h.finished hf with hend | ⟨hinflates, hfailed⟩
    · exact .inl hend
    · exact .inr ⟨hinflates, .inl hfailed⟩
  | false =>
    have hended : (drainLoop s.pipeline.weight s.pipeline 0).1.2 = true := by
      rw [drain_of_open hf] at hdone
      cases hopen : (drainLoop s.pipeline.weight s.pipeline 0).1.2 with
      | true => rfl
      | false => simp [hopen] at hdone
    rw [drain_of_open hf]
    exact (drainLoop_unspoilt h.pipeline hended).imp_right fun hfailed => ⟨hfailed.1, .inr hfailed.2⟩

theorem Unspoilt.drainFor {ms : Nat} (h : s.Unspoilt inflates) (hdone : (s.drainFor ms).1.isSome = true) :
    (s.drainFor ms).2.pipeline.source.AtEnd ∨ inflates = true ∧ s.Undecoded := by
  rw [Stream.drainFor] at hdone ⊢
  by_cases hms : ms = 0
  · rw [if_pos hms] at hdone
    cases hdone
  · rw [if_neg hms] at hdone ⊢
    exact h.drain hdone

end Stream

end Depot
