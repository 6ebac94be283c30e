import Depot.Proofs.Inflate
import Depot.Proofs.Zstd.Stored
import Depot.Stream

/-!
# The stages of a stream

What flows through the stages. A pipeline under way is described by what its tap saw and by what was
handed out: `Flows` ties both to the source, and `Done` is the pipeline behind its end. Neither
mentions how the source was cut or how much each read asked for.

## Main definitions

* `Stages.Plain` — the plaintext of a source, by the stages asked for.
* `Stages.output` — what a reader gets to see of a plaintext.
* `Pipeline.Flows`, `Pipeline.Done` — a pipeline under way, and one behind its end.

## Main results

* `Pipeline.flows_build` — a new pipeline is under way.
* `Pipeline.Flows.readBuilt` — a read keeps the pipeline under way or brings it to its end.
-/

namespace Depot

/-! ## Counting and hashing -/

namespace Tap

/-- A tap that saw `seen`, and its end if `ended`. -/
def Counts (t : Tap) (digest ended : Bool) (seen : Bytes) : Prop :=
  t = { bytes := seen.length
        hasher := if digest && !ended then some (Sha256.start.absorb seen) else none
        digest := if digest && ended then some (Sha256.digest seen) else none }

variable {t : Tap} {digest : Bool} {seen out : Bytes} {n : Nat}

theorem Counts.note (h : t.Counts digest false seen) (hout : ¬ (out = [] ∧ n ≠ 0)) :
    (t.note n out).Counts digest false (seen ++ out) := by
  have hmore : ¬ (out.isEmpty = true ∧ n ≠ 0) := by simpa using hout
  rw [Tap.note, if_neg hmore, h]
  cases digest <;> simp [Counts, Sha256.absorb_append]

theorem Counts.finish (h : t.Counts digest false seen) (hn : n ≠ 0) :
    (t.note n []).Counts digest true seen := by
  rw [Tap.note, if_pos ⟨rfl, hn⟩, h]
  cases digest <;> simp [Counts, Sha256.digest]

/-- The tap after a read of at most `n` bytes; errors go by it. -/
def noted (t : Tap) (n : Nat) : ReadResult → Tap
  | .ok out => t.note n out
  | .error _ => t

theorem Counts.noted {r : ReadResult} (h : t.Counts digest false seen)
    (hr : ¬ (r = .ok [] ∧ n ≠ 0)) : (t.noted n r).Counts digest false (seen ++ r.bytes) := by
  cases r with
  | ok out => exact h.note fun hout => hr ⟨congrArg _ hout.1, hout.2⟩
  | error e => simpa [Tap.noted] using h

end Tap

/-! ## Compressing -/

namespace Deflate

/-- A compressing reader that took `tapped` and has handed out `given`. -/
def Carries (d : Deflate) (tapped given : Bytes) : Prop :=
  if d.ended then given ++ d.ready = Zstd.encode tapped
  else d.encoder.Wrote tapped (given ++ d.ready)

variable {d : Deflate} {tapped given contents : Bytes}

theorem Carries.give (h : d.Carries tapped given) (n : Nat) :
    (d.give n).2.Carries tapped (given ++ (d.give n).1) := by
  simpa [Carries, Deflate.give] using h

theorem Carries.take (h : d.Carries tapped given) (hd : d.ended = false) (contents : Bytes) :
    (d.take contents).Carries (tapped ++ contents) given := by
  have hwrote : d.encoder.Wrote tapped (given ++ d.ready) := by simpa [Carries, hd] using h
  cases contents with
  | nil => simpa [Carries, Deflate.take] using hwrote.finish
  | cons b rest => simpa [Carries, Deflate.take, hd] using hwrote.feed (b :: rest)

theorem ended_take (hd : d.ended = false) : (d.take contents).ended = contents.isEmpty := by
  cases contents <;> simp [Deflate.take, hd]

end Deflate

/-! ## Plaintexts -/

namespace Stages

/-- Whether `plain` is the plaintext of a source that consists of `wire`. -/
def Plain (st : Stages) (wire plain : Bytes) : Prop :=
  if st.decompress then Zstd.Decodes wire plain else plain = wire

/-- What a reader of the stages gets to see of a plaintext. -/
def output (st : Stages) (plain : Bytes) : Bytes := if st.compress then Zstd.encode plain else plain

end Stages

/-! ## Pipelines -/

namespace Pipeline

variable {st : Stages} {wire tapped given : Bytes} {p p' : Pipeline} {n fuel : Nat} {r : ReadResult}

/-- Whether `rest` is the plaintext that is still to come to the tap. -/
def Brings (p : Pipeline) (rest : Bytes) : Prop :=
  if p.stages.decompress then p.inflate.Brings p.source.bytes rest else rest = p.source.bytes

/-- A pipeline under way over a source that consisted of `wire`: its tap saw `tapped`, and `given` was
handed out. The compressing stage may have come to its end before all of it was handed out. -/
structure Flows (st : Stages) (wire : Bytes) (p : Pipeline) (tapped given : Bytes) : Prop where
  built : p.built = true
  stages : p.stages = st
  brings : ∀ rest, p.Brings rest → st.Plain wire (tapped ++ rest)
  tap : p.tap.Counts st.digest p.deflate.ended tapped
  output : if st.compress then p.deflate.Carries tapped given
    else p.deflate.ended = false ∧ given = tapped
  ended : p.deflate.ended = true → p.Brings []

/-- A pipeline behind its end: the tap saw the whole plaintext, and all of the output was handed
out. -/
structure Done (st : Stages) (wire : Bytes) (p : Pipeline) (tapped given : Bytes) : Prop where
  plain : st.Plain wire tapped
  tap : p.tap.Counts st.digest true tapped
  output : given = st.output tapped

/-- A new pipeline is under way once its stages are put together. -/
theorem flows_build (s : Source) (st : Stages) :
    Flows st s.bytes (build { source := s, stages := st }) [] [] where
  built := rfl
  stages := rfl
  brings rest hrest := by
    rw [Brings] at hrest
    rw [Stages.Plain]
    cases hd : st.decompress
    · simpa [build, hd] using hrest
    · simpa [build, hd, Inflate.Brings, Zstd.Decodes] using hrest
  tap := by cases hd : st.digest <;> simp [build, Tap.Counts, hd]
  output := by
    cases hc : st.compress
    · exact ⟨rfl, rfl⟩
    · exact Zstd.Encoder.Wrote.start
  ended h := by cases h

theorem readPlain_bare (h : p.stages.decompress = false) : p.readPlain n =
    ((p.source.read n).1, { p with
      source := (p.source.read n).2, tap := p.tap.noted n (p.source.read n).1 }) := by
  simp only [readPlain, h]
  generalize p.source.read n = x
  obtain ⟨_ | _, _⟩ := x <;> rfl

theorem readPlain_decompress (h : p.stages.decompress = true) : p.readPlain n =
    ((p.inflate.read p.source n).1, { p with
      source := (p.inflate.read p.source n).2.2, inflate := (p.inflate.read p.source n).2.1
      tap := p.tap.noted n (p.inflate.read p.source n).1 }) := by
  simp only [readPlain, h]
  generalize p.inflate.read p.source n = x
  obtain ⟨_ | _, _, _⟩ := x <;> rfl

/-- A read of plaintext: what it changes, and what it brings. -/
theorem readPlain_spec (h : p.readPlain n = (r, p')) :
    (∃ source inflate, p' = { p with source := source, inflate := inflate, tap := p.tap.noted n r }) ∧
      (∀ rest, p'.Brings rest → p.Brings (r.bytes ++ rest)) ∧
      (r = .ok [] → n ≠ 0 → p'.Brings []) := by
  cases hd : p.stages.decompress with
  | false =>
    obtain ⟨rfl, rfl⟩ := Prod.mk.inj ((readPlain_bare hd).symm.trans h)
    refine ⟨⟨_, _, rfl⟩, fun rest hrest => ?_, fun hnil hn => ?_⟩
    · simp only [Brings, hd] at hrest ⊢
      rw [hrest]
      exact (Source.bytes_read (s := p.source) (n := n) (Prod.eta _).symm).symm
    · have hend := Source.bytes_of_end hn (Prod.ext hnil rfl)
      simp [Brings, hd, hend]
  | true =>
    obtain ⟨rfl, rfl⟩ := Prod.mk.inj ((readPlain_decompress hd).symm.trans h)
    obtain ⟨hbrings, hends⟩ :=
      Inflate.brings_read (i := p.inflate) (s := p.source) (n := n) (Prod.eta _).symm
    refine ⟨⟨_, _, rfl⟩, fun rest hrest => ?_, fun hnil _ => ?_⟩
    · simp only [Brings, hd, if_true] at hrest ⊢
      exact hbrings rest hrest
    · simpa [Brings, hd] using (Inflate.brings_of_ended (hends hnil)).mpr rfl

/-- Reading puts no stages together, changes none of them, and does not finish a pipeline by itself. -/
structure Kept (p p' : Pipeline) : Prop where
  built : p'.built = p.built
  stages : p'.stages = p.stages
  finished : p'.finished = p.finished

theorem kept_readPlain (h : p.readPlain n = (r, p')) : Kept p p' := by
  obtain ⟨⟨_, _, rfl⟩, -, -⟩ := readPlain_spec h
  exact ⟨rfl, rfl, rfl⟩

theorem kept_readDeflated (h : readDeflated n fuel p = (r, p')) : Kept p p' := by
  induction fuel generalizing p with
  | zero =>
    obtain ⟨-, rfl⟩ := Prod.mk.inj h
    exact ⟨rfl, rfl, rfl⟩
  | succ fuel ih =>
    rw [readDeflated] at h
    split at h
    · obtain ⟨-, rfl⟩ := Prod.mk.inj h
      exact ⟨rfl, rfl, rfl⟩
    · split at h
      · rename_i hplain
        obtain ⟨-, rfl⟩ := Prod.mk.inj h
        exact kept_readPlain hplain
      · rename_i hplain
        obtain ⟨hbuilt, hstages, hfinished⟩ := kept_readPlain hplain
        have hkept := ih h
        exact ⟨hkept.built.trans hbuilt, hkept.stages.trans hstages, hkept.finished.trans hfinished⟩

theorem kept_readBuilt (h : p.readBuilt n = (r, p')) : Kept p p' := by
  rw [Pipeline.readBuilt] at h
  split at h
  · exact kept_readDeflated h
  · exact kept_readPlain h

theorem build_of_built (h : p.built = true) : p.build = p := by
  rw [build, if_pos h]

@[simp] theorem finished_build (p : Pipeline) : p.build.finished = p.finished := by
  rw [build]
  split <;> rfl

/-- A read without a compressing stage keeps a pipeline under way, or brings it to its end. -/
theorem Flows.readPlain (h : Flows st wire p tapped given) (hc : st.compress = false)
    (hr : p.readPlain n = (r, p')) :
    (¬ (r = .ok [] ∧ n ≠ 0) → Flows st wire p' (tapped ++ r.bytes) (given ++ r.bytes)) ∧
      (r = .ok [] → n ≠ 0 → Done st wire p' tapped given) := by
  obtain ⟨⟨source, inflate, rfl⟩, hbrings, hend⟩ := readPlain_spec hr
  obtain ⟨hopen, rfl⟩ : p.deflate.ended = false ∧ given = tapped := by simpa [hc] using h.output
  have htap : p.tap.Counts st.digest false given := hopen ▸ h.tap
  refine ⟨fun hmore => ⟨h.built, h.stages, fun rest hrest => ?_, ?_, ?_, fun hended => ?_⟩, ?_⟩
  · simpa using h.brings _ (hbrings rest hrest)
  · rw [hopen]
    exact htap.noted hmore
  · simp [hc, hopen]
  · simp [hopen] at hended
  · rintro rfl hn
    refine ⟨?_, htap.finish hn, by simp [Stages.output, hc]⟩
    simpa using h.brings _ (hbrings [] (hend rfl hn))

/-- The compressing stage takes in what comes past the tap. -/
theorem Flows.take {contents : Bytes} (h : Flows st wire p tapped given) (hc : st.compress = true)
    (hopen : p.deflate.ended = false) (hr : p.readPlain Codec.deflateChunk = (.ok contents, p')) :
    Flows st wire { p' with deflate := p'.deflate.take contents } (tapped ++ contents) given := by
  obtain ⟨⟨source, inflate, rfl⟩, hbrings, hend⟩ := readPlain_spec hr
  have hcarries : p.deflate.Carries tapped given := by simpa [hc] using h.output
  have htap : p.tap.Counts st.digest false tapped := hopen ▸ h.tap
  have hended : (p.deflate.take contents).ended = contents.isEmpty := Deflate.ended_take hopen
  refine ⟨h.built, h.stages, fun rest hrest => ?_, ?_, ?_, fun hnil => ?_⟩
  · simpa using h.brings _ (hbrings rest hrest)
  · rw [hended]
    cases contents with
    | nil =>
      rw [List.append_nil]
      exact htap.finish (n := Codec.deflateChunk) (by decide)
    | cons b rest => exact htap.noted (n := Codec.deflateChunk) (r := .ok (b :: rest)) (by simp)
  · simpa [hc] using hcarries.take hopen contents
  · obtain rfl := List.isEmpty_iff.mp (hended.symm.trans hnil)
    exact hend rfl (by decide)

/-- Compressing plaintext until something comes out keeps a pipeline under way; nothing comes out
only at its end. -/
theorem Flows.readDeflated (h : Flows st wire p tapped given) (hc : st.compress = true)
    (hr : readDeflated n fuel p = (r, p')) :
    ∃ more, Flows st wire p' (tapped ++ more) (given ++ r.bytes) ∧
      (r = .ok [] → n ≠ 0 → p'.deflate.ended = true ∧ p'.deflate.ready = []) := by
  induction fuel generalizing p tapped with
  | zero =>
    obtain ⟨rfl, rfl⟩ := Prod.mk.inj hr
    exact ⟨[], by simpa using h, by simp⟩
  | succ fuel ih =>
    rw [Pipeline.readDeflated] at hr
    split at hr
    · rename_i hready
      obtain ⟨rfl, rfl⟩ := Prod.mk.inj hr
      have hcarries : p.deflate.Carries tapped given := by simpa [hc] using h.output
      refine ⟨[], ?_, fun hnil hn => ?_⟩
      · rw [List.append_nil]
        exact ⟨h.built, h.stages, h.brings, h.tap, by rw [hc]; exact hcarries.give n, h.ended⟩
      · have hempty : p.deflate.ready = [] := by simpa [hn] using hnil
        exact ⟨by simpa [hempty] using hready, by simp [hempty]⟩
    · rename_i hready
      have hopen : p.deflate.ended = false := by
        simp only [not_or, Bool.not_eq_true] at hready
        exact hready.2
      split at hr
      · rename_i e p₁ hplain
        obtain ⟨rfl, rfl⟩ := Prod.mk.inj hr
        obtain ⟨⟨source, inflate, rfl⟩, hbrings, -⟩ := readPlain_spec hplain
        refine ⟨[], ?_, by simp⟩
        rw [List.append_nil, ReadResult.bytes_error, List.append_nil]
        exact ⟨h.built, h.stages, fun rest hrest => h.brings _ (hbrings rest hrest), h.tap, h.output,
          by simp [hopen]⟩
      · rename_i contents p₁ hplain
        obtain ⟨more, hmore, hend⟩ := ih (h.take hc hopen hplain) hr
        exact ⟨contents ++ more, by simpa using hmore, hend⟩

/-- A read keeps a pipeline under way, or brings it to its end. -/
theorem Flows.readBuilt (h : Flows st wire p tapped given) (hr : p.readBuilt n = (r, p')) :
    ∃ tapped', (¬ (r = .ok [] ∧ n ≠ 0) → Flows st wire p' tapped' (given ++ r.bytes)) ∧
      (r = .ok [] → n ≠ 0 → Done st wire p' tapped' given) := by
  rw [Pipeline.readBuilt, h.stages] at hr
  cases hc : st.compress with
  | false =>
    rw [hc, if_neg (by simp)] at hr
    obtain ⟨hmore, hend⟩ := h.readPlain hc hr
    refine ⟨tapped ++ r.bytes, hmore, ?_⟩
    rintro rfl hn
    simpa using hend rfl hn
  | true =>
    rw [hc, if_pos rfl] at hr
    obtain ⟨more, hmore, hend⟩ := h.readDeflated hc hr
    refine ⟨tapped ++ more, fun _ => hmore, ?_⟩
    rintro rfl hn
    obtain ⟨hended, hready⟩ := hend rfl hn
    have hcarries : p'.deflate.Carries (tapped ++ more) (given ++ []) := by
      simpa [hc] using hmore.output
    refine ⟨?_, hended ▸ hmore.tap, ?_⟩
    · simpa using hmore.brings _ (hmore.ended hended)
    · simpa [Stages.output, hc, Deflate.Carries, hended, hready] using hcarries

end Pipeline

end Depot
