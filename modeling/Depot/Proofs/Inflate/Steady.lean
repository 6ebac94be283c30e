import Depot.Proofs.Stream.Faultless
import Depot.Proofs.Zstd.Progress
import Mathlib.Data.Prod.Lex

/-!
# Decompressing without getting stuck

A decompressing reader over a source to which nothing will be added. Every read that is not its end brings it nearer
to its end, those that are interrupted included; so it is never stuck, and it fails for good only where what is left
of its payload is refused or too short.

## Main definitions

* `Inflate.remaining` — how far a reader is from its end.
* `Inflate.Steady` — a reader whose source will end and raises no errors.

## Main results

* `Inflate.Steady.read` — what a read leaves.
-/

namespace Depot

/-- Whether a reader goes on after this answer: it is neither the end nor an error other than an interruption. -/
def ReadResult.GoesOn (r : ReadResult) : Prop := r ≠ .ok [] ∧ ∀ e, r = .error e → e.kind = .interrupted

theorem ReadResult.not_goesOn {e : ReadError} (he : e.kind.isTransient = false) : ¬ GoesOn (.error e) := by
  intro h
  rw [h.2 e rfl] at he
  cases he

/-- A failure of the codec is one for good. -/
theorem Codec.isTransient_raise (sourceFailed : Bool) (f : Zstd.Fault) :
    (raise sourceFailed f).kind.isTransient = false := by
  rw [raise]
  split
  · split <;> rfl
  · rfl

namespace Inflate

variable {i i' : Inflate} {s s' : Source} {n fuel : Nat} {r : ReadResult} {input : Bytes}

/-- How far a reader is from its end: by what it has not decoded, and then by what waits to be handed out. -/
def remaining (i : Inflate) (s : Source) : Nat ×ₗ Nat := toLex (s.weight + i.held.length, i.decoder.pending)

theorem remaining_lt_iff : i'.remaining s' < i.remaining s ↔ s'.weight + i'.held.length < s.weight + i.held.length ∨
    s'.weight + i'.held.length = s.weight + i.held.length ∧ i'.decoder.pending < i.decoder.pending :=
  Prod.Lex.toLex_lt_toLex

theorem remaining_le (h : s'.weight + i'.held.length ≤ s.weight + i.held.length)
    (hpending : i'.decoder.pending ≤ i.decoder.pending) : i'.remaining s' ≤ i.remaining s := by
  refine Prod.Lex.toLex_le_toLex.mpr ?_
  dsimp only
  omega

/-- What decoding nothing new, or what is held, does. -/
structure Decoded (i : Inflate) (s : Source) (input : Bytes) (r : ReadResult) (i' : Inflate) : Prop where
  rested : i'.decoder.Rested
  failed : ∀ e, r = .error e → e.kind.isTransient = false ∧ ∀ wire, i'.Comes wire none
  nothing : r = .ok [] → i'.decoder.pending = 0 ∧ i'.held.length ≤ i.held.length ∧
    (input ≠ [] → i'.held.length < i.held.length)
  some : ∀ out, r = .ok out → out ≠ [] → i'.remaining s < i.remaining s

theorem decoded (h : i.decoder.Rested) (hopen : i.ended = false) (hn : n ≠ 0) (hin : input = [] ∨ input = i.held)
    (hd : i.decode input n = (r, i')) (s : Source) : Decoded i s input r i' := by
  rw [decode] at hd
  split at hd
  · rename_i f hfeed
    obtain ⟨rfl, rfl⟩ := Prod.mk.inj hd
    refine ⟨h, fun e he => ⟨Except.error.inj he ▸ Codec.isTransient_raise _ f, fun wire => ?_⟩,
      (fun hnil => by cases hnil), fun _ hout => by cases hout⟩
    rw [comes_of_not_ended hopen]
    rcases hin with rfl | rfl
    · have hends : Zstd.Ends i.decoder ([] ++ (i.held ++ wire)) none := .refused hfeed
      exact hends
    · exact .refused hfeed
  · rename_i d taken out hfeed
    obtain ⟨rfl, rfl⟩ := Prod.mk.inj hd
    obtain ⟨hrested, htaken, hidle, hdry⟩ := h.feed hfeed
    -- what is held afterwards, whichever of the two was decoded
    have hheld : (if input.isEmpty then i.held else input.drop taken).length + taken = i.held.length := by
      split
      · rename_i hempty
        rw [List.isEmpty_iff.mp hempty, List.length_nil] at htaken
        omega
      · rename_i hsome
        obtain rfl : input = i.held := hin.resolve_left fun hnil => hsome (List.isEmpty_iff.mpr hnil)
        rw [List.length_drop]
        omega
    refine ⟨hrested, (fun _ he => by cases he), fun hnil => ?_, fun out' hout hsome => ?_⟩
    · obtain ⟨hnone, hgets⟩ := hdry hn (Except.ok.inj hnil)
      refine ⟨hnone, by dsimp only; omega, fun hinput => ?_⟩
      have hpos := hgets hinput
      dsimp only
      omega
    · obtain rfl := Except.ok.inj hout
      have hlength := List.length_pos_iff.mpr hsome
      rw [remaining_lt_iff]
      dsimp only
      by_cases hzero : taken = 0
      · have hless := hidle hzero
        omega
      · omega

/-- A reader whose source will end and raises no errors. -/
structure Steady (i : Inflate) (s : Source) : Prop extends i.Unspoilt s where
  closed : s.isOpen = false
  rested : i.decoder.Rested

/-- What reading on makes of a reader. -/
structure Onward (i : Inflate) (s : Source) (r : ReadResult) (i' : Inflate) (s' : Source) : Prop where
  closed : s'.isOpen = false
  rested : i'.decoder.Rested
  nearer : r.GoesOn → i'.remaining s' < i.remaining s
  failed : ∀ e, r = .error e → e.kind ≠ .interrupted → e.kind.isTransient = false ∧ i'.Comes s'.bytes none

theorem Decoded.onward (h : Decoded i s input r i') (hout : r ≠ .ok []) (hs : s.isOpen = false) :
    Onward i s r i' s := by
  refine ⟨hs, h.rested, fun hgoes => ?_, fun e he _ => (h.failed e he).imp_right fun hcomes => hcomes s.bytes⟩
  cases r with
  | ok out => exact h.some out rfl fun hnil => hout (congrArg _ hnil)
  | error e => exact absurd hgoes (ReadResult.not_goesOn (h.failed e rfl).1)

/-- A round that is followed by others. -/
theorem Onward.of_nearer {j : Inflate} {s₁ : Source} (h : Onward j s₁ r i' s') (hj : j.remaining s₁ ≤ i.remaining s) :
    Onward i s r i' s' :=
  ⟨h.closed, h.rested, fun hgoes => (h.nearer hgoes).trans_le hj, h.failed⟩

/-- What a reader decodes next weighs no more than what it held and what its source had; and its source has to be
read again at most. -/
theorem Steady.fill {filled : ReadResult} {s₁ : Source} (h : i.Steady s) (hf : i.fill s = (filled, s₁)) :
    s₁.isOpen = false ∧ s₁.weight + filled.bytes.length ≤ s.weight + i.held.length ∧
      ∀ e, filled = .error e → e.kind = .interrupted ∧ s₁.weight < s.weight := by
  rw [Inflate.fill] at hf
  split at hf
  · have hadd := Source.weight_read_add hf
    refine ⟨(Source.isOpen_read hf).trans h.closed, by omega, ?_⟩
    rintro e rfl
    refine ⟨((h.source.read hf).2 e rfl).resolve_right fun hopen => ?_,
      (Source.weight_read (by decide) h.closed hf (by simp)).2⟩
    cases h.closed.symm.trans hopen.2
  · obtain ⟨rfl, rfl⟩ := Prod.mk.inj hf
    exact ⟨h.closed, Nat.le_refl _, fun _ he => by cases he⟩

/-- A reader with what it decodes next. -/
theorem Steady.filled {s₁ : Source} (h : i.Steady s) (hopen : i.ended = false) (hf : i.fill s = (.ok input, s₁)) :
    Steady { i with held := input } s₁ :=
  ⟨h.toUnspoilt.filled hopen hf, (h.fill hf).1, h.rested⟩

theorem Steady.decode (h : i.Steady s) (hd : i.decode input n = (r, i')) (hrested : i'.decoder.Rested) :
    i'.Steady s :=
  ⟨(h.toUnspoilt.decode hd).1, h.closed, hrested⟩

/-- A reader that has nothing to hand out is never stuck. -/
theorem Looped.onward (hl : Looped n fuel i s r i' s') (h : i.Steady s) (hopen : i.ended = false) (hn : n ≠ 0)
    (hdry : i.decoder.pending = 0) (hfuel : s.weight + i.held.length < fuel) : Onward i s r i' s' := by
  induction hl with
  | stuck => omega
  | failed hfill =>
    obtain ⟨hclosed, -, herror⟩ := h.fill hfill
    obtain ⟨hkind, hless⟩ := herror _ rfl
    exact ⟨hclosed, h.rested, fun _ => remaining_lt_iff.mpr (.inl (by dsimp only; omega)),
      fun e he hfatal => absurd (Except.error.inj he ▸ hkind) hfatal⟩
  | ended hfill hmay =>
    exact ⟨(h.fill hfill).1, h.rested, fun hgoes => absurd rfl hgoes.1, fun _ he => by cases he⟩
  | short hfill hmay =>
    obtain ⟨hheld, -, hnil⟩ := nil_of_fill hfill
    refine ⟨(h.fill hfill).1, h.rested, fun hgoes => ?_, fun e he _ => ⟨?_, ?_⟩⟩
    · exact absurd hgoes (ReadResult.not_goesOn (Codec.isTransient_raise _ _))
    · exact Except.error.inj he ▸ Codec.isTransient_raise _ _
    · rw [comes_of_not_ended hopen, hheld, hnil]
      exact .short hdry hmay
  | decoded hfill _ hdecode hsome =>
    have hsteady := h.filled hopen hfill
    refine ((Inflate.decoded hsteady.rested hopen hn (.inr rfl) hdecode _).onward hsome hsteady.closed).of_nearer ?_
    exact remaining_le (h.fill hfill).2.1 (Nat.le_refl _)
  | @again _ i i₁ _ s s₁ _ _ _ hfill hinput hdecode _ ih =>
    have hsteady := h.filled hopen hfill
    have hdecoded := Inflate.decoded hsteady.rested hopen hn (.inr rfl) hdecode s₁
    obtain ⟨hdry', -, hshort⟩ := hdecoded.nothing rfl
    -- a round that is followed by another one shortens what is held
    have hlength := hshort hinput
    have hweight := (h.fill hfill).2.1
    rw [ReadResult.bytes_ok] at hweight
    dsimp only at hlength
    refine (ih (hsteady.decode hdecode hdecoded.rested) ((ended_decode hdecode).trans hopen) hdry'
      (by omega)).of_nearer ?_
    exact remaining_le (by omega) (by omega)

/-- What a read leaves. -/
theorem Steady.read (h : i.Steady s) (hn : n ≠ 0) (hr : i.read s n = (r, i', s')) :
    i'.Steady s' ∧ Onward i s r i' s' := by
  have hunspoilt := (h.toUnspoilt.read hr).1
  suffices honward : Onward i s r i' s' from ⟨⟨hunspoilt, honward.closed, honward.rested⟩, honward⟩
  cases readOut hr with
  | ended => exact ⟨h.closed, h.rested, fun hgoes => absurd rfl hgoes.1, fun _ he => by cases he⟩
  | decoded hi hdecode hsome => exact (Inflate.decoded h.rested hi hn (.inl rfl) hdecode s).onward hsome h.closed
  | looped hi hdecode hlooped =>
    have hdecoded := Inflate.decoded h.rested hi hn (.inl rfl) hdecode s
    obtain ⟨hdry, hle, -⟩ := hdecoded.nothing rfl
    refine (hlooped.onward (h.decode hdecode hdecoded.rested) ((ended_decode hdecode).trans hi) hn hdry
      (by omega)).of_nearer ?_
    exact remaining_le (by omega) (by omega)

end Inflate

end Depot
