import Depot.Proofs.Inflate.Steady
import Depot.Proofs.Stream.Yield

/-!
# Stages that come to an end

The stages over a source to which nothing will be added and that raises no errors of its own. Every read but the last
one brings them nearer to their end, and they fail only where the payload cannot be decoded.

## Main definitions

* `Pipeline.remaining` — how far the stages are from their end.
* `Pipeline.Refuses` — what is left of the payload can be refused, or is too short.

## Main results

* `Pipeline.Onward` — what a read makes of such stages.
* `Pipeline.onward_readBuilt` — every read of the stages does so.
-/

namespace Depot.Pipeline

variable {st : Stages} {wire tapped given : Bytes} {p p' q : Pipeline} {n fuel : Nat} {r : ReadResult}

/-- How far the stages are from their end: by what has not come past the tap, and then by what the compressing stage
still has to hand out. -/
def remaining (p : Pipeline) : Nat ×ₗ Nat ×ₗ Nat :=
  toLex (if p.deflate.ended then 0 else p.source.weight + p.inflate.held.length + 1,
    toLex (p.inflate.decoder.pending, p.deflate.ready.length))

/-- Whether what is left of the payload can be refused, or is too short. -/
def Refuses (p : Pipeline) : Prop := p.stages.decompress = true ∧ p.inflate.Comes p.source.bytes none

/-- What reading makes of stages over a source that will end and raises no errors. -/
structure Onward (p : Pipeline) (r : ReadResult) (p' : Pipeline) : Prop where
  steady : p'.inflate.Steady p'.source
  nearer : r.GoesOn → p'.remaining < p.remaining
  refuses : p'.Refuses → p.Refuses
  failed : ∀ e, r = .error e → e.kind ≠ .interrupted → e.kind.isTransient = false ∧ e.codec = true ∧ p.Refuses

/-- Stages are nearer to their end when their source is, whatever the compressing stage has become. -/
theorem remaining_lt (hopen : p.deflate.ended = false)
    (h : p'.inflate.remaining p'.source < p.inflate.remaining p.source) : p'.remaining < p.remaining := by
  rw [Inflate.remaining_lt_iff] at h
  rw [remaining, remaining, hopen, if_neg Bool.false_ne_true, Prod.Lex.toLex_lt_toLex]
  dsimp only
  split
  · exact .inl (by omega)
  · rcases h with hless | ⟨hsame, hless⟩
    · exact .inl (by omega)
    · exact .inr ⟨by omega, Prod.Lex.toLex_lt_toLex.mpr (.inl hless)⟩

/-- Stages are nearer to their end when the compressing stage has met the end of the plaintext. -/
theorem remaining_lt_of_ended (hopen : p.deflate.ended = false) (hended : p'.deflate.ended = true) :
    p'.remaining < p.remaining := by
  rw [remaining, remaining, hopen, hended, if_neg Bool.false_ne_true, if_pos rfl, Prod.Lex.toLex_lt_toLex]
  exact .inl (Nat.succ_pos _)

/-- What a read of plaintext makes of the source and of the decompressing stage. -/
structure Fetched (p : Pipeline) (r : ReadResult) (p' : Pipeline) : Prop where
  steady : p'.inflate.Steady p'.source
  nearer : r.GoesOn → p'.inflate.remaining p'.source < p.inflate.remaining p.source
  refuses : p'.Refuses → p.Refuses
  failed : ∀ e, r = .error e → e.kind ≠ .interrupted → e.kind.isTransient = false ∧ e.codec = true ∧ p.Refuses

theorem fetched_readPlain (h : p.inflate.Steady p.source) (hn : n ≠ 0) (hr : p.readPlain n = (r, p')) :
    Fetched p r p' := by
  cases hd : p.stages.decompress with
  | false =>
    obtain ⟨rfl, rfl⟩ := Prod.mk.inj ((readPlain_bare hd).symm.trans hr)
    have hread : p.source.read n = ((p.source.read n).1, (p.source.read n).2) := (Prod.eta _).symm
    obtain ⟨hfaultless, herror⟩ := h.source.read hread
    refine ⟨⟨⟨hfaultless, h.sourceFailed, fun he => (h.ended he).read hread⟩,
      (Source.isOpen_read hread).trans h.closed, h.rested⟩, fun hgoes => ?_, fun hrefuses => ?_, fun e he hfatal => ?_⟩
    · have hless := (Source.weight_read hn h.closed hread hgoes.1).2
      exact Inflate.remaining_lt_iff.mpr (.inl (by dsimp only; omega))
    · cases hd.symm.trans hrefuses.1
    · rcases herror e he with hkind | ⟨-, hopen⟩
      · exact absurd hkind hfatal
      · cases h.closed.symm.trans hopen
  | true =>
    obtain ⟨rfl, rfl⟩ := Prod.mk.inj ((readPlain_decompress hd).symm.trans hr)
    have hread : p.inflate.read p.source n = ((p.inflate.read p.source n).1, (p.inflate.read p.source n).2.1,
      (p.inflate.read p.source n).2.2) := rfl
    obtain ⟨hsteady, honward⟩ := h.read hn hread
    have hcomes := (Inflate.comes_read hread).1 none
    refine ⟨hsteady, honward.nearer, fun hrefuses => ⟨hd, hcomes hrefuses.2⟩, fun e he hfatal => ?_⟩
    obtain ⟨htransient, hnone⟩ := honward.failed e he hfatal
    obtain ⟨-, hcodec⟩ := ((h.toUnspoilt.read hread).2.failed e he).resolve_left (by simp [htransient])
    exact ⟨htransient, hcodec, hd, hcomes hnone⟩

/-- A read of plaintext that goes to the reader. -/
theorem Fetched.onward (h : Fetched p r p') (hopen : p.deflate.ended = false) : Onward p r p' :=
  ⟨h.steady, fun hgoes => remaining_lt hopen (h.nearer hgoes), h.refuses, h.failed⟩

/-- A round of the compressing stage that is followed by others. -/
theorem Onward.after (h : Onward q r p') (hrefuses : q.Refuses → p.Refuses) (hless : q.remaining < p.remaining) :
    Onward p r p' :=
  ⟨h.steady, fun hgoes => (h.nearer hgoes).trans hless, fun hp => hrefuses (h.refuses hp), fun e he hfatal =>
    (h.failed e he hfatal).imp_right fun hfailed => hfailed.imp_right hrefuses⟩

/-- A compressing stage under way is never stuck. -/
theorem onward_readDeflated (h : p.inflate.Steady p.source) (hflows : Flows st wire p tapped given)
    (hc : st.compress = true) (hn : n ≠ 0) (hfuel : p.deflate.rounds ≤ fuel)
    (hr : readDeflated n fuel p = (r, p')) : Onward p r p' := by
  induction fuel generalizing p tapped with
  | zero =>
    have hcarries : p.deflate.Carries tapped given := by simpa [hc] using hflows.output
    have hpos := Deflate.rounds_pos hcarries
    omega
  | succ fuel ih =>
    have hcarries : p.deflate.Carries tapped given := by simpa [hc] using hflows.output
    rw [Pipeline.readDeflated] at hr
    split at hr
    · obtain ⟨rfl, rfl⟩ := Prod.mk.inj hr
      refine ⟨h, fun hgoes => ?_, id, fun _ he => by cases he⟩
      -- something that was ready is handed out
      have hsome : p.deflate.ready ≠ [] := fun hnil => hgoes.1 (by simp [hnil])
      have hlength := List.length_pos_iff.mpr hsome
      refine Prod.Lex.toLex_lt_toLex.mpr (.inr ⟨rfl, Prod.Lex.toLex_lt_toLex.mpr (.inr ⟨rfl, ?_⟩)⟩)
      show (p.deflate.ready.drop n).length < p.deflate.ready.length
      rw [List.length_drop]
      omega
    -- nothing is ready: a round takes in plaintext, and the fuel is for as many rounds as there can be
    · rename_i hready
      have hopen : p.deflate.ended = false := by simpa using (not_or.mp hready).2
      split at hr
      · rename_i e p₁ hplain
        obtain ⟨rfl, rfl⟩ := Prod.mk.inj hr
        exact (fetched_readPlain h (by decide) hplain).onward hopen
      · rename_i contents p₁ hplain
        have hfetched := fetched_readPlain h (by decide) hplain
        have hdeflate : p₁.deflate = p.deflate := by
          obtain ⟨⟨source, inflate, rfl⟩, -⟩ := readPlain_spec hplain
          rfl
        let q : Pipeline := { p₁ with deflate := p₁.deflate.take contents }
        have hless : q.deflate.rounds < p.deflate.rounds := by
          show (p₁.deflate.take contents).rounds < _
          rw [hdeflate]
          exact Deflate.rounds_take hcarries hready
        have hnext : Onward q r p' := ih hfetched.steady (hflows.take hc hopen hplain) (by omega) hr
        refine hnext.after hfetched.refuses ?_
        cases contents with
        | nil => exact remaining_lt_of_ended hopen (Deflate.ended_take (hdeflate ▸ hopen))
        | cons b rest => exact remaining_lt hopen (hfetched.nearer ⟨by simp, fun _ he => by cases he⟩)

/-- A read of the stages. -/
theorem onward_readBuilt (h : p.inflate.Steady p.source) (hflows : Flows st wire p tapped given) (hn : n ≠ 0)
    (hr : p.readBuilt n = (r, p')) : Onward p r p' := by
  rw [Pipeline.readBuilt, hflows.stages] at hr
  cases hc : st.compress with
  | false =>
    rw [hc, if_neg Bool.false_ne_true] at hr
    have houtput := hflows.output
    rw [hc, if_neg Bool.false_ne_true] at houtput
    exact (fetched_readPlain h hn hr).onward houtput.1
  | true =>
    rw [hc, if_pos rfl] at hr
    exact onward_readDeflated h hflows hc hn (Deflate.rounds_le _) hr

end Depot.Pipeline
