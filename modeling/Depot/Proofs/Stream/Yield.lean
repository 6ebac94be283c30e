import Depot.Proofs.Pipeline

/-!
# Reading to the end

What a reader brings that is read again and again until its end. A compressing stage makes one frame of what its
own source brings, whatever the pieces on either side; it is never stuck.

## Main results

* `Yields.simulate` — a reader that answers like another one brings the same.
* `Pipeline.yields_encode` — a compressing stage brings the frame of what comes past the tap.
* `Pipeline.Flows.yields` — what reading to the end has brought is the output of a plaintext.
-/

namespace Depot

/-- Whether reading again and again brings these bytes, and then the end. -/
inductive Yields {α : Type} (read : α → ReadResult × α) : α → Bytes → Prop
  | done {x y : α} (h : read x = (.ok [], y)) : Yields read x []
  | more {x y : α} {out rest : Bytes} (h : read x = (.ok out, y)) (hout : out ≠ []) (next : Yields read y rest) :
      Yields read x (out ++ rest)

namespace Yields

variable {α β : Type} {read : α → ReadResult × α} {other : β → ReadResult × β} {x y : α} {out rest a b : Bytes}

theorem cases_read (h : Yields read x a) : ∃ out y rest, read x = (.ok out, y) ∧ a = out ++ rest ∧
    (out = [] → rest = []) ∧ (out ≠ [] → Yields read y rest) := by
  cases h with
  | done h => exact ⟨[], _, [], h, rfl, fun _ => rfl, fun h => absurd rfl h⟩
  | more h hout next => exact ⟨_, _, _, h, rfl, fun h => absurd h hout, fun _ => next⟩

/-- A reader brings nothing else. -/
theorem unique (h : Yields read x a) (h' : Yields read x b) : a = b := by
  induction h generalizing b with
  | done h =>
    obtain ⟨out, y, rest, hread, rfl, hend, -⟩ := h'.cases_read
    obtain rfl : [] = out := Except.ok.inj (congrArg Prod.fst (h.symm.trans hread))
    rw [hend rfl]
    rfl
  | more h hout next ih =>
    obtain ⟨out, y, rest, hread, rfl, -, hmore⟩ := h'.cases_read
    obtain ⟨hsame, rfl⟩ := Prod.mk.inj (h.symm.trans hread)
    obtain rfl := Except.ok.inj hsame
    rw [ih (hmore hout)]

/-- A reader that answers like another one brings the same. -/
theorem simulate {R : α → β → Prop} (h : Yields read x a) {z : β} (hR : R x z)
    (hstep : ∀ x z out y, R x z → read x = (.ok out, y) → ∃ u, other z = (.ok out, u) ∧ (out ≠ [] → R y u)) :
    Yields other z a := by
  induction h generalizing z with
  | done h =>
    obtain ⟨u, hother, -⟩ := hstep _ _ _ _ hR h
    exact .done hother
  | more h hout next ih =>
    obtain ⟨u, hother, hnext⟩ := hstep _ _ _ _ hR h
    exact .more hother hout (ih (hnext hout))

end Yields

/-! ## Sources -/

namespace Source

variable {s : Source} {n : Nat}

/-- A read of a clean source is its end, or takes something. -/
theorem read_clean_cases (hs : s.Clean) (hn : n ≠ 0) : ∃ out s', s.read n = (.ok out, s') ∧ s'.Clean ∧
    s.bytes = out ++ s'.bytes ∧ (out = [] → s'.bytes = []) := by
  obtain ⟨⟨out, hout⟩, hclean⟩ := read_clean hs n
  have hread : s.read n = (.ok out, (s.read n).2) := Prod.ext hout rfl
  refine ⟨out, _, hread, hclean, bytes_read hread, ?_⟩
  rintro rfl
  exact bytes_of_end hn hread

/-- A clean source brings its bytes. -/
theorem yields_clean (hs : s.Clean) (hn : n ≠ 0) : Yields (fun s : Source => s.read n) s s.bytes := by
  induction hlength : s.bytes.length using Nat.strongRecOn generalizing s with | ind m ih => ?_
  obtain ⟨out, s', hread, hclean, hbytes, hend⟩ := read_clean_cases hs hn
  by_cases hout : out = []
  · subst hout
    rw [hbytes, hend rfl]
    exact .done hread
  · have hpos : 0 < out.length := List.length_pos_iff.mpr hout
    rw [hbytes]
    rw [hbytes, List.length_append] at hlength
    exact .more hread hout (ih _ (by omega) hclean rfl)

end Source

/-! ## Rounds of a compressing stage -/

namespace Deflate

open Zstd (blockMax)

variable {d : Deflate} {tapped given contents : Bytes}

/-- How many rounds it takes at most until something is handed out, if each one takes in a byte or the end. -/
def rounds (d : Deflate) : Nat :=
  if !d.ready.isEmpty ∨ d.ended then 1 else blockMax + 2 - d.encoder.held.length

theorem rounds_le (d : Deflate) : d.rounds ≤ Codec.deflateRounds := by
  rw [rounds]
  split
  · decide
  · exact Nat.le_trans (Nat.sub_le _ _) (by decide)

theorem rounds_pos (h : d.Carries tapped given) : 0 < d.rounds := by
  rw [rounds]
  split
  · exact Nat.one_pos
  · rename_i hready
    have hopen : d.ended = false := by simpa using (not_or.mp hready).2
    rw [Carries, if_neg (by simp [hopen])] at h
    obtain ⟨full, hcut, -⟩ := h
    have hheld := hcut.bound
    omega

/-- Each round that takes in something brings a stage nearer to handing out. -/
theorem rounds_take (h : d.Carries tapped given) (hready : ¬ (!d.ready.isEmpty ∨ d.ended)) :
    (d.take contents).rounds < d.rounds := by
  have hopen : d.ended = false := by simpa using (not_or.mp hready).2
  have hidle : d.ready = [] := by simpa using (not_or.mp hready).1
  rw [Carries, if_neg (by simp [hopen])] at h
  obtain ⟨full, hcut, -⟩ := h
  have hheld := hcut.bound
  have hrounds : d.rounds = blockMax + 2 - d.encoder.held.length := if_neg hready
  cases contents with
  | nil =>
    have hended : (d.take []).rounds = 1 := if_pos (.inr rfl)
    omega
  | cons b rest =>
    obtain ⟨more, left, hmore, hnext, hwritten⟩ := Zstd.Encoder.feed_cut d.encoder (b :: rest)
    rw [rounds]
    split
    · omega
    · rename_i hstill
      -- nothing was written, so all that was taken in is held
      have hnone : more = [] := by
        refine Decidable.byContradiction fun hsome => hstill (.inl ?_)
        have hframes := mt Zstd.fullFrames_eq_nil.mp hsome
        simp [take, hwritten, hsome, hframes]
      have hleft : left = d.encoder.held ++ b :: rest := by
        have hjoin := hmore.join
        rw [hnone, List.flatten_nil, List.nil_append] at hjoin
        exact hjoin.symm
      have hbound := hmore.bound
      have hlength : (d.take (b :: rest)).encoder.held.length = d.encoder.held.length + (rest.length + 1) := by
        simp [take, hnext, hleft]
      omega

end Deflate

namespace Pipeline

variable {p q p' : Pipeline} {n fuel : Nat} {bytes given : Bytes}

/-- Whether two pipelines bring the same plaintext to their taps. -/
structure SamePlain (p q : Pipeline) : Prop where
  decompress : q.stages.decompress = p.stages.decompress
  source : q.source = p.source
  inflate : q.inflate = p.inflate

theorem SamePlain.readPlain {r : ReadResult} (h : SamePlain p q) (hr : p.readPlain n = (r, p')) :
    ∃ q', q.readPlain n = (r, q') ∧ SamePlain p' q' := by
  cases hd : p.stages.decompress with
  | false =>
    have hq : q.stages.decompress = false := h.decompress.trans hd
    obtain ⟨rfl, rfl⟩ := Prod.mk.inj ((readPlain_bare hd).symm.trans hr)
    rw [readPlain_bare hq, h.source]
    exact ⟨_, rfl, h.decompress, rfl, h.inflate⟩
  | true =>
    have hq : q.stages.decompress = true := h.decompress.trans hd
    obtain ⟨rfl, rfl⟩ := Prod.mk.inj ((readPlain_decompress hd).symm.trans hr)
    rw [readPlain_decompress hq, h.source, h.inflate]
    exact ⟨_, rfl, h.decompress, rfl, rfl⟩

theorem yields_samePlain (h : Yields (fun p : Pipeline => p.readPlain n) p bytes) (hpq : SamePlain p q) :
    Yields (fun p : Pipeline => p.readPlain n) q bytes :=
  h.simulate hpq fun _ _ _ _ hpq hread =>
    have ⟨u, hother, hnext⟩ := hpq.readPlain hread
    ⟨u, hother, fun _ => hnext⟩

/-- Without a decompressing stage, what comes past the tap is what the source brings. -/
theorem yields_source (hd : p.stages.decompress = false) (h : Yields (fun s : Source => s.read n) p.source bytes) :
    Yields (fun p : Pipeline => p.readPlain n) p bytes := by
  refine h.simulate (R := fun s p => p.stages.decompress = false ∧ p.source = s) ⟨hd, rfl⟩ ?_
  rintro s p out s' ⟨hd, rfl⟩ hread
  rw [readPlain_bare hd, hread]
  exact ⟨_, rfl, fun _ => ⟨hd, rfl⟩⟩

/-- Without a compressing stage, what goes out is what comes past the tap. -/
theorem yields_readBuilt_iff (hc : p.stages.compress = false) :
    Yields (fun p : Pipeline => p.readBuilt n) p bytes ↔ Yields (fun p : Pipeline => p.readPlain n) p bytes := by
  have hsame {p : Pipeline} (hc : p.stages.compress = false) : p.readBuilt n = p.readPlain n := by
    rw [readBuilt, hc, if_neg (by simp)]
  constructor
  · refine fun h => h.simulate (R := fun p q => q = p ∧ p.stages.compress = false) ⟨rfl, hc⟩ ?_
    rintro p _ out p' ⟨rfl, hc⟩ hread
    exact ⟨p', hsame hc ▸ hread, fun _ => ⟨rfl, (kept_readBuilt hread).stages ▸ hc⟩⟩
  · refine fun h => h.simulate (R := fun p q => q = p ∧ p.stages.compress = false) ⟨rfl, hc⟩ ?_
    rintro p _ out p' ⟨rfl, hc⟩ hread
    exact ⟨p', (hsame hc).trans hread, fun _ => ⟨rfl, (kept_readPlain hread).stages ▸ hc⟩⟩

/-- A compressing pipeline under way that has handed out `given` of the frame of `bytes`. -/
def Compresses (p : Pipeline) (bytes given : Bytes) : Prop :=
  ∃ tapped rest, p.deflate.Carries tapped given ∧ bytes = tapped ++ rest ∧
    if p.deflate.ended then rest = [] else Yields (fun p : Pipeline => p.readPlain Codec.deflateChunk) p rest

/-- A compressing pipeline is never stuck; it hands out nothing only behind the end of the frame. -/
theorem Compresses.readDeflated (h : p.Compresses bytes given) (hfuel : p.deflate.rounds ≤ fuel) :
    ∃ out p', readDeflated n fuel p = (.ok out, p') ∧ p'.Compresses bytes (given ++ out) ∧
      (out = [] → n ≠ 0 → given = Zstd.encode bytes) := by
  induction fuel generalizing p with
  | zero =>
    obtain ⟨tapped, rest, hcarries, -⟩ := h
    have hpos := Deflate.rounds_pos hcarries
    omega
  | succ fuel ih =>
    obtain ⟨tapped, rest, hcarries, rfl, hrest⟩ := h
    rw [Pipeline.readDeflated]
    split
    · rename_i hready
      refine ⟨_, _, rfl, ⟨tapped, rest, hcarries.give n, rfl, ?_⟩, fun hnil hn => ?_⟩
      · show if p.deflate.ended then _ else _
        split
        · rename_i hended
          rwa [if_pos hended] at hrest
        · rename_i hopen
          rw [if_neg hopen] at hrest
          exact yields_samePlain hrest ⟨rfl, rfl, rfl⟩
      · -- nothing was ready, so the frame has ended
        have hempty : p.deflate.ready = [] := by simpa [Deflate.give, hn] using hnil
        have hended : p.deflate.ended = true := by simpa [hempty] using hready
        rw [if_pos hended] at hrest
        rw [Deflate.Carries, if_pos hended, hempty, List.append_nil] at hcarries
        rw [hrest, List.append_nil, hcarries]
    · rename_i hready
      have hopen : p.deflate.ended = false := by simpa using (not_or.mp hready).2
      rw [if_neg (by simp [hopen])] at hrest
      obtain ⟨contents, p₁, next, hread, rfl, hend, hmore⟩ := hrest.cases_read
      obtain ⟨⟨source, inflate, rfl⟩, -⟩ := readPlain_spec hread
      rw [hread]
      have hless : (p.deflate.take contents).rounds < p.deflate.rounds := Deflate.rounds_take hcarries hready
      refine ih ⟨tapped ++ contents, next, hcarries.take hopen contents, by simp, ?_⟩ (by dsimp only; omega)
      dsimp only
      rw [Deflate.ended_take hopen]
      cases contents with
      | nil => exact hend rfl
      | cons b rest => exact yields_samePlain (hmore (List.cons_ne_nil b rest)) ⟨rfl, rfl, rfl⟩

/-- What a compressing pipeline has handed out is the beginning of the frame. -/
theorem Compresses.exists_rest (h : p.Compresses bytes given) : ∃ rest, Zstd.encode bytes = given ++ rest := by
  obtain ⟨tapped, rest, hcarries, rfl, hrest⟩ := h
  rw [Deflate.Carries] at hcarries
  split at hcarries
  · rename_i hended
    rw [if_pos hended] at hrest
    rw [hrest, List.append_nil]
    exact ⟨_, hcarries.symm⟩
  · -- what has been handed out stays in front when the rest is fed to the encoder
    have hfinish := (hcarries.feed rest).finish
    rw [List.append_assoc, List.append_assoc] at hfinish
    exact ⟨_, hfinish.symm⟩

theorem Compresses.yields {rest : Bytes} (h : p.Compresses bytes given) (hc : p.stages.compress = true) (hn : n ≠ 0)
    (hrest : Zstd.encode bytes = given ++ rest) : Yields (fun p : Pipeline => p.readBuilt n) p rest := by
  induction hlength : rest.length using Nat.strongRecOn generalizing p given rest with | ind m ih => ?_
  obtain ⟨out, p', hread, hnext, hend⟩ := h.readDeflated (n := n) (Deflate.rounds_le _)
  have hbuilt : p.readBuilt n = (.ok out, p') := by rw [readBuilt, hc, if_pos rfl, hread]
  by_cases hout : out = []
  · subst hout
    obtain rfl : rest = [] := by simpa [← hend rfl hn] using hrest
    exact .done hbuilt
  · obtain ⟨rest', hrest'⟩ := hnext.exists_rest
    obtain rfl : rest = out ++ rest' := by simpa [hrest] using hrest'
    have hpos : 0 < out.length := List.length_pos_iff.mpr hout
    have hstages : p'.stages = p.stages := (kept_readBuilt hbuilt).stages
    rw [List.length_append] at hlength
    exact .more hbuilt hout (ih _ (by omega) hnext (hstages ▸ hc) hrest' rfl)

/-- A compressing stage brings the frame of what comes past the tap. -/
theorem yields_encode (hc : p.stages.compress = true) (hfresh : p.deflate = {})
    (h : Yields (fun p : Pipeline => p.readPlain Codec.deflateChunk) p bytes) (hn : n ≠ 0) :
    Yields (fun p : Pipeline => p.readBuilt n) p (Zstd.encode bytes) := by
  have hstart : p.Compresses bytes [] := by
    refine ⟨[], bytes, ?_, rfl, ?_⟩
    · rw [hfresh]
      exact Zstd.Encoder.Wrote.start
    · rw [hfresh]
      exact h
  exact hstart.yields hc hn rfl

/-- What reading a pipeline to its end has brought is the output of a plaintext. -/
theorem Flows.yields {st : Stages} {wire tapped rest : Bytes} (h : Flows st wire p tapped given)
    (hyields : Yields (fun p : Pipeline => p.readBuilt n) p rest) (hn : n ≠ 0) :
    ∃ plain, st.Plain wire plain ∧ given ++ rest = st.output plain := by
  induction hyields generalizing tapped given with
  | done hread =>
    obtain ⟨plain, -, hend⟩ := h.readBuilt hread
    have hdone := hend rfl hn
    exact ⟨plain, hdone.plain, by rw [List.append_nil, hdone.output]⟩
  | more hread hout next ih =>
    obtain ⟨plain, hmore, -⟩ := h.readBuilt hread
    obtain ⟨plain', hplain, houtput⟩ := ih (hmore fun hnil => hout (Except.ok.inj hnil.1))
    exact ⟨plain', hplain, by rw [← houtput, List.append_assoc]; rfl⟩

end Pipeline

end Depot
