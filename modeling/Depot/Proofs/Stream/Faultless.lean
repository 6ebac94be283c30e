import Depot.Proofs.Pipeline

/-!
# Sources without errors

A source that raises no errors of its own, and what a read of it tells: nothing comes only at its end, and only the
decoding fails for good. A source to which nothing will be added weighs less after every read.

## Main results

* `Source.weight_read` — a read takes something off a source.
* `Inflate.Unspoilt.read` — a decompressing reader over such a source.
-/

namespace Depot

/-! ## Reading -/

namespace Source

variable {s s' : Source} {n : Nat} {r : ReadResult}

/-- A source that raises no errors of its own; its reads may be interrupted. -/
def Faultless (s : Source) : Prop := ∀ e, .failure e ∈ s.pieces → e.kind = .interrupted

/-- A source that was read to its end. -/
def AtEnd (s : Source) : Prop := s.isOpen = false ∧ s.bytes = []

theorem readPieces_faultless {isOpen : Bool} {pieces : List Piece} (n : Nat)
    (h : ∀ e, .failure e ∈ pieces → e.kind = .interrupted) :
    (∀ e, .failure e ∈ (readPieces isOpen n pieces).2 → e.kind = .interrupted) ∧
      ∀ e, (readPieces isOpen n pieces).1 = .error e →
        e.kind = .interrupted ∨ e.kind = .pending ∧ isOpen = true := by
  fun_induction readPieces isOpen n pieces with
  | case1 =>
    refine ⟨h, fun e he => ?_⟩
    split at he
    · rename_i hopen
      cases he
      exact .inr ⟨rfl, hopen.1⟩
    · cases he
  | case2 rest ih => exact ih fun e he => h e (List.mem_cons_of_mem _ he)
  | case3 => exact ⟨h, fun e he => by cases he⟩
  | case4 b rest =>
    refine ⟨fun e he => h e ?_, fun e he => by cases he⟩
    rcases List.mem_cons.mp he with he | he
    · cases he
    · exact List.mem_cons_of_mem _ he
  | case5 => exact ⟨h, fun e he => by cases he⟩
  | case6 e rest =>
    refine ⟨fun e he => h e (List.mem_cons_of_mem _ he), ?_⟩
    rintro _ ⟨⟩
    exact .inl (h e (List.mem_cons_self ..))

theorem Faultless.read (hs : s.Faultless) (h : s.read n = (r, s')) :
    s'.Faultless ∧ ∀ e, r = .error e → e.kind = .interrupted ∨ e.kind = .pending ∧ s.isOpen = true := by
  obtain ⟨rfl, rfl⟩ := Prod.mk.inj ((read_eq s n).symm.trans h)
  exact readPieces_faultless n hs

/-- A source that raises no errors asks for nothing but to be read again. -/
theorem Faultless.transient (hs : s.Faultless) (h : s.read n = (r, s')) {e : ReadError} (he : r = .error e) :
    e.kind.isTransient = true := by
  rcases (hs.read h).2 e he with hkind | ⟨hkind, -⟩ <;> rw [hkind] <;> rfl

theorem faultless_ofPieces (chunks : List Bytes) : (ofPieces chunks).Faultless := by
  intro e he
  simp [ofPieces] at he

theorem weight_cons (p : Piece) (rest : List Piece) (isOpen : Bool) :
    weight ⟨p :: rest, isOpen⟩ = weight ⟨[p], isOpen⟩ + weight ⟨rest, isOpen⟩ := by
  cases p <;> simp only [weight, List.foldr_cons, List.foldr_nil]

/-- A read that is not the end takes something off a source that nothing will be added to. -/
theorem weight_readPieces {pieces : List Piece} (hn : n ≠ 0) (hr : (readPieces false n pieces).1 ≠ .ok []) :
    weight ⟨(readPieces false n pieces).2, false⟩ < weight ⟨pieces, false⟩ := by
  fun_induction readPieces false n pieces with
  | case1 => exact absurd rfl hr
  | case2 rest ih =>
    have hrest := ih hr
    rw [weight_cons]
    omega
  | case3 => contradiction
  | case4 b rest hb hn' =>
    have hlength : 0 < b.length := List.length_pos_iff.mpr hb
    rw [weight_cons (.data (b.drop n)), weight_cons (.data b)]
    simp only [weight, List.foldr_cons, List.foldr_nil, List.length_drop]
    omega
  | case5 => contradiction
  | case6 e rest =>
    rw [weight_cons]
    simp only [weight, List.foldr_cons, List.foldr_nil]
    omega

theorem weight_read (hn : n ≠ 0) (hclosed : s.isOpen = false) (h : s.read n = (r, s')) (hr : r ≠ .ok []) :
    s'.isOpen = false ∧ s'.weight < s.weight := by
  rw [read_eq, hclosed] at h
  obtain ⟨rfl, rfl⟩ := Prod.mk.inj h
  exact ⟨rfl, weight_readPieces hn hr⟩

/-- What a read brings no longer weighs on the source. -/
theorem weight_readPieces_add (isOpen : Bool) (n : Nat) (pieces : List Piece) :
    weight ⟨(readPieces isOpen n pieces).2, false⟩ + (ReadResult.bytes (readPieces isOpen n pieces).1).length ≤
      weight ⟨pieces, false⟩ := by
  fun_induction readPieces isOpen n pieces with
  | case1 => split <;> exact Nat.le_refl _
  | case2 rest ih =>
    rw [weight_cons (.data [])]
    omega
  | case3 => exact Nat.le_refl _
  | case4 b rest =>
    rw [weight_cons (.data (b.drop n)), weight_cons (.data b)]
    simp only [weight, List.foldr_cons, List.foldr_nil, List.length_drop, ReadResult.bytes_ok, List.length_take]
    omega
  | case5 => exact Nat.le_refl _
  | case6 e rest =>
    rw [weight_cons (.failure e)]
    exact Nat.le_add_left _ _

theorem weight_read_add (h : s.read n = (r, s')) : s'.weight + r.bytes.length ≤ s.weight := by
  obtain ⟨rfl, rfl⟩ := Prod.mk.inj ((read_eq s n).symm.trans h)
  exact weight_readPieces_add s.isOpen n s.pieces

theorem isOpen_read (h : s.read n = (r, s')) : s'.isOpen = s.isOpen := by
  obtain ⟨-, rfl⟩ := Prod.mk.inj ((read_eq s n).symm.trans h)
  rfl

theorem atEnd_of_end (hn : n ≠ 0) (h : s.read n = (.ok [], s')) : s'.AtEnd :=
  ⟨(read_end hn h).1, bytes_of_end hn h⟩

theorem AtEnd.read (hs : s.AtEnd) (h : s.read n = (r, s')) : s'.AtEnd := by
  have hbytes := bytes_read h
  rw [hs.2] at hbytes
  obtain ⟨-, rfl⟩ := Prod.mk.inj ((read_eq s n).symm.trans h)
  exact ⟨hs.1, (List.append_eq_nil_iff.mp hbytes.symm).2⟩

end Source

/-! ## Decoding -/

namespace ReadResult

/-- Whether a read of at most `n` bytes tells what it left of a source that raises no errors: it brings nothing
only at the end, and if it fails for good the decoding failed. -/
structure Honest (inflates : Bool) (n : Nat) (r : ReadResult) (s : Source) : Prop where
  ended : r = .ok [] → n ≠ 0 → s.AtEnd
  failed : ∀ e, r = .error e → e.kind.isTransient = true ∨ inflates = true ∧ e.codec = true

variable {inflates : Bool} {n : Nat} {s : Source}

theorem honest_some {out : Bytes} (h : out ≠ []) : Honest inflates n (.ok out) s :=
  ⟨fun hnil => absurd (Except.ok.inj hnil) h, fun _ he => by cases he⟩

theorem honest_end (h : s.AtEnd) : Honest inflates n (.ok []) s := ⟨fun _ _ => h, fun _ he => by cases he⟩

theorem honest_transient {e : ReadError} (h : e.kind.isTransient = true) : Honest inflates n (.error e) s := by
  refine ⟨(fun hnil => by cases hnil), ?_⟩
  rintro _ ⟨⟩
  exact .inl h

theorem honest_raise (f : Zstd.Fault) : Honest true n (.error (Codec.raise false f)) s := by
  refine ⟨(fun hnil => by cases hnil), ?_⟩
  rintro _ ⟨⟩
  exact .inr ⟨rfl, rfl⟩

end ReadResult

open ReadResult (Honest honest_some honest_end honest_transient honest_raise)

namespace Inflate

variable {i i' : Inflate} {s s' : Source} {n fuel : Nat} {r : ReadResult} {input : Bytes}

/-- A decompressing reader over a source that raises no errors. -/
structure Unspoilt (i : Inflate) (s : Source) : Prop where
  source : s.Faultless
  sourceFailed : i.sourceFailed = false
  ended : i.ended = true → s.AtEnd

theorem Unspoilt.decode (h : i.Unspoilt s) (hd : i.decode input n = (r, i')) :
    i'.Unspoilt s ∧ (r ≠ .ok [] → Honest true n r s) := by
  rw [Inflate.decode] at hd
  split at hd
  · obtain ⟨rfl, rfl⟩ := Prod.mk.inj hd
    rw [h.sourceFailed]
    exact ⟨h, fun _ => honest_raise _⟩
  · obtain ⟨rfl, rfl⟩ := Prod.mk.inj hd
    exact ⟨⟨h.source, h.sourceFailed, h.ended⟩, fun hout => honest_some fun hnil => hout (congrArg _ hnil)⟩

/-- What a reader decodes next. -/
theorem Unspoilt.fill {filled : ReadResult} (h : i.Unspoilt s) (hf : i.fill s = (filled, s')) :
    s'.Faultless ∧ (filled = .ok [] → s'.AtEnd) ∧ ∀ e, filled = .error e → e.kind.isTransient = true := by
  rw [Inflate.fill] at hf
  split at hf
  · refine ⟨(h.source.read hf).1, ?_, fun e he => h.source.transient hf he⟩
    rintro rfl
    exact Source.atEnd_of_end (by decide) hf
  · rename_i hheld
    obtain ⟨rfl, rfl⟩ := Prod.mk.inj hf
    refine ⟨h.source, fun hnil => ?_, fun _ he => by cases he⟩
    rw [Except.ok.inj hnil] at hheld
    exact absurd rfl hheld

/-- A reader with what it decodes next. -/
theorem Unspoilt.filled (h : i.Unspoilt s) (hopen : i.ended = false) (hf : i.fill s = (.ok input, s')) :
    Unspoilt { i with held := input } s' :=
  ⟨(h.fill hf).1, h.sourceFailed, fun he => by cases hopen.symm.trans he⟩

/-- Reading on goes on, or meets the end of the source, or fails to decode it. -/
theorem Looped.unspoilt (hl : Looped n fuel i s r i' s') (h : i.Unspoilt s) (hopen : i.ended = false) :
    i'.Unspoilt s' ∧ Honest true n r s' := by
  induction hl with
  | stuck =>
    rw [Codec.stuck, h.sourceFailed]
    exact ⟨h, honest_raise _⟩
  | failed hfill =>
    obtain ⟨hfaultless, -, htransient⟩ := h.fill hfill
    have he := htransient _ rfl
    exact ⟨⟨hfaultless, by simp [h.sourceFailed, he], fun hended => by cases hopen.symm.trans hended⟩,
      honest_transient he⟩
  | ended hfill =>
    obtain ⟨hfaultless, hend, -⟩ := h.fill hfill
    exact ⟨⟨hfaultless, h.sourceFailed, fun _ => hend rfl⟩, honest_end (hend rfl)⟩
  | short hfill =>
    rw [h.sourceFailed]
    exact ⟨⟨(h.fill hfill).1, h.sourceFailed, fun hended => by cases hopen.symm.trans hended⟩, honest_raise _⟩
  | decoded hfill _ hdecode hsome => exact ((h.filled hopen hfill).decode hdecode).imp_right fun hhonest => hhonest hsome
  | again hfill _ hdecode _ ih =>
    exact ih ((h.filled hopen hfill).decode hdecode).1 ((ended_decode hdecode).trans hopen)

theorem Unspoilt.read (h : i.Unspoilt s) (hr : i.read s n = (r, i', s')) :
    i'.Unspoilt s' ∧ Honest true n r s' := by
  cases readOut hr with
  | ended hi => exact ⟨h, honest_end (h.ended hi)⟩
  | decoded hi hdecode hsome => exact (h.decode hdecode).imp_right fun hhonest => hhonest hsome
  | looped hi hdecode hlooped => exact hlooped.unspoilt (h.decode hdecode).1 ((ended_decode hdecode).trans hi)

end Inflate

end Depot
