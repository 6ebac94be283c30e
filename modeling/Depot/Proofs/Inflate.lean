import Depot.Proofs.Source
import Depot.Proofs.Zstd.Decoding

/-!
# Decompressing readers

A reader decodes what it holds, or else what it takes from its source, until something comes out. `Looped` says what
that can lead to, and with what last step; what reading preserves is proved by induction on it.

## Main definitions

* `Inflate.fill` — what a reader decodes next.
* `Inflate.Looped`, `Inflate.ReadOut` — what reading on, and a read, can lead to.
* `Inflate.Brings`, `Inflate.Comes` — all that a reader will hand out, and the end that it can come to.

## Main results

* `Inflate.comes_read`, `Inflate.brings_read` — a read goes on to the same end.
-/

namespace Depot.Inflate

variable {i i' : Inflate} {s s' : Source} {n fuel : Nat} {r : ReadResult} {wire rest input : Bytes} {r? : Option Bytes}

/-! ## What a read can lead to -/

/-- What a reader decodes next: what it holds, or else what it takes from its source. -/
def fill (i : Inflate) (s : Source) : ReadResult × Source :=
  if i.held.isEmpty then s.read Codec.inflateChunk else (.ok i.held, s)

/-- What reading on in at most so many rounds can lead to. -/
inductive Looped (n : Nat) : Nat → Inflate → Source → ReadResult → Inflate → Source → Prop
  | stuck (i : Inflate) (s : Source) : Looped n 0 i s (.error (Codec.stuck i.sourceFailed)) i s
  | failed {fuel : Nat} {i : Inflate} {s s' : Source} {e : ReadError} (hfill : i.fill s = (.error e, s')) :
      Looped n (fuel + 1) i s (.error e) { i with sourceFailed := i.sourceFailed || !e.kind.isTransient } s'
  | ended {fuel : Nat} {i : Inflate} {s s' : Source} (hfill : i.fill s = (.ok [], s'))
      (hmay : i.decoder.mayEnd = true) : Looped n (fuel + 1) i s (.ok []) { i with ended := true } s'
  | short {fuel : Nat} {i : Inflate} {s s' : Source} (hfill : i.fill s = (.ok [], s'))
      (hmay : i.decoder.mayEnd = false) :
      Looped n (fuel + 1) i s (.error (Codec.raise i.sourceFailed .incomplete)) i s'
  | decoded {fuel : Nat} {i i' : Inflate} {s s' : Source} {input : Bytes} {r : ReadResult}
      (hfill : i.fill s = (.ok input, s')) (hinput : input ≠ [])
      (hdecode : { i with held := input }.decode input n = (r, i')) (hr : r ≠ .ok []) : Looped n (fuel + 1) i s r i' s'
  | again {fuel : Nat} {i i₁ i' : Inflate} {s s₁ s' : Source} {input : Bytes} {r : ReadResult}
      (hfill : i.fill s = (.ok input, s₁)) (hinput : input ≠ [])
      (hdecode : { i with held := input }.decode input n = (.ok [], i₁)) (next : Looped n fuel i₁ s₁ r i' s') :
      Looped n (fuel + 1) i s r i' s'

theorem looped_of_readLoop (h : readLoop n fuel i s = (r, i', s')) : Looped n fuel i s r i' s' := by
  induction fuel generalizing i s with
  | zero =>
    simp only [readLoop, Prod.mk.injEq] at h
    obtain ⟨rfl, rfl, rfl⟩ := h
    exact .stuck i s
  | succ fuel ih =>
    rw [readLoop] at h
    generalize hfill : (if i.held.isEmpty then s.read Codec.inflateChunk else (.ok i.held, s)) = filled at h
    obtain ⟨filled, s₁⟩ := filled
    split at h
    · rename_i e _ heq
      obtain ⟨rfl, rfl⟩ := Prod.mk.inj heq
      obtain ⟨rfl, rfl, rfl⟩ : _ ∧ _ ∧ _ := by simpa using h
      exact .failed hfill
    · rename_i heq
      obtain ⟨rfl, rfl⟩ := Prod.mk.inj heq
      split at h
      · rename_i hmay
        obtain ⟨rfl, rfl, rfl⟩ : _ ∧ _ ∧ _ := by simpa using h
        exact .ended hfill hmay
      · rename_i hmay
        obtain ⟨rfl, rfl, rfl⟩ : _ ∧ _ ∧ _ := by simpa using h
        exact .short hfill (by simpa using hmay)
    · rename_i hinput heq
      obtain ⟨rfl, rfl⟩ := Prod.mk.inj heq
      split at h
      · rename_i hdecode
        obtain ⟨rfl, rfl, rfl⟩ : _ ∧ _ ∧ _ := by simpa using h
        exact .decoded hfill hinput hdecode (fun hnil => by cases hnil)
      · rename_i hdecode
        exact .again hfill hinput hdecode (ih h)
      · rename_i hout hdecode
        obtain ⟨rfl, rfl, rfl⟩ : _ ∧ _ ∧ _ := by simpa using h
        exact .decoded hfill hinput hdecode (fun hnil => hout (Except.ok.inj hnil))

/-- What a read can lead to. -/
inductive ReadOut (n : Nat) (i : Inflate) (s : Source) : ReadResult → Inflate → Source → Prop
  | ended (hi : i.ended = true) : ReadOut n i s (.ok []) i s
  | decoded {r : ReadResult} {i' : Inflate} (hi : i.ended = false) (hdecode : i.decode [] n = (r, i'))
      (hr : r ≠ .ok []) : ReadOut n i s r i' s
  | looped {i₁ i' : Inflate} {s' : Source} {r : ReadResult} (hi : i.ended = false)
      (hdecode : i.decode [] n = (.ok [], i₁))
      (hlooped : Looped n (2 * (s.weight + i₁.held.length) + 4) i₁ s r i' s') : ReadOut n i s r i' s'

theorem readOut (h : i.read s n = (r, i', s')) : ReadOut n i s r i' s' := by
  cases hi : i.ended with
  | true =>
    simp only [read, hi, if_true, Prod.mk.injEq] at h
    obtain ⟨rfl, rfl, rfl⟩ := h
    exact .ended hi
  | false =>
    rw [read, hi, if_neg Bool.false_ne_true] at h
    split at h
    · rename_i hdecode
      obtain ⟨rfl, rfl, rfl⟩ : _ ∧ _ ∧ _ := by simpa using h
      exact .decoded hi hdecode (fun hnil => by cases hnil)
    · rename_i hdecode
      exact .looped hi hdecode (looped_of_readLoop h)
    · rename_i hout hdecode
      obtain ⟨rfl, rfl, rfl⟩ : _ ∧ _ ∧ _ := by simpa using h
      exact .decoded hi hdecode (fun hnil => hout (Except.ok.inj hnil))

theorem ended_decode (h : i.decode input n = (r, i')) : i'.ended = i.ended := by
  rw [decode] at h
  split at h <;> (obtain ⟨-, rfl⟩ := Prod.mk.inj h; rfl)

theorem bytes_fill {filled : ReadResult} (h : i.fill s = (filled, s')) :
    i.held ++ s.bytes = filled.bytes ++ s'.bytes ∧ (∀ e, filled = .error e → i.held = []) ∧
      (filled = .ok [] → s'.bytes = []) := by
  rw [fill] at h
  cases hheld : i.held with
  | nil =>
    rw [hheld, List.isEmpty_nil, if_pos rfl] at h
    refine ⟨Source.bytes_read h, fun _ _ => rfl, ?_⟩
    rintro rfl
    exact Source.bytes_of_end (by decide) h
  | cons b rest =>
    rw [hheld, List.isEmpty_cons, if_neg (by simp)] at h
    obtain ⟨rfl, rfl⟩ := Prod.mk.inj h
    simp

/-- A reader that meets the end of its source holds nothing. -/
theorem nil_of_fill (h : i.fill s = (.ok [], s')) : i.held = [] ∧ s.bytes = [] ∧ s'.bytes = [] := by
  obtain ⟨hbytes, -, hend⟩ := bytes_fill h
  obtain ⟨hheld, hsource⟩ : i.held = [] ∧ s.bytes = [] :=
    List.append_eq_nil_iff.mp (by rw [hbytes, hend rfl]; rfl)
  exact ⟨hheld, hsource, hend rfl⟩

/-! ## What a reader comes to -/

/-- Whether `rest` is what a decompressing reader will hand out, its source holding `wire`. -/
def Brings (i : Inflate) (wire rest : Bytes) : Prop :=
  if i.ended then rest = []
  else ∃ d, Zstd.Feeds i.decoder (i.held ++ wire) rest d ∧ d.mayEnd = true

/-- Whether a decompressing reader whose source holds `wire` can come to this end: all that it will hand out, or
nothing where its payload is refused or too short. -/
def Comes (i : Inflate) (wire : Bytes) (r : Option Bytes) : Prop :=
  if i.ended then r = some [] else Zstd.Ends i.decoder (i.held ++ wire) r

theorem map_bytes_nil (h : r.bytes = []) (r? : Option Bytes) : r?.map (r.bytes ++ ·) = r? := by
  cases r? <;> simp [h]

theorem brings_of_ended (h : i.ended = true) : i.Brings wire rest ↔ rest = [] := by
  simp [Brings, h]

theorem comes_of_ended (h : i.ended = true) : i.Comes wire r? ↔ r? = some [] := by
  simp [Comes, h]

theorem comes_of_not_ended (h : i.ended = false) :
    i.Comes wire r? ↔ Zstd.Ends i.decoder (i.held ++ wire) r? := by
  simp [Comes, h]

theorem brings_iff : i.Brings wire rest ↔ i.Comes wire (some rest) := by
  rw [Brings, Comes]
  split
  · rw [Option.some_inj]
  · exact Zstd.ends_some_iff.symm

/-- What a reader comes to depends on its decoder and on the bytes that are still to be decoded. -/
theorem Comes.congr {wire' : Bytes} (hr : i'.Comes wire' r?) (hi : i.ended = false)
    (hi' : i'.ended = false) (hd : i'.decoder = i.decoder) (hw : i'.held ++ wire' = i.held ++ wire) :
    i.Comes wire r? := by
  rw [comes_of_not_ended hi]
  rwa [comes_of_not_ended hi', hd, hw] at hr

/-- Decoding nothing new, or what is held, goes on to what the reader comes to. -/
theorem comes_decode (h : i.decode input n = (r, i')) (hi : i.ended = false)
    (hin : input = [] ∨ input = i.held) (hr : i'.Comes wire r?) : i.Comes wire (r?.map (r.bytes ++ ·)) := by
  have hi' : i'.ended = false := (ended_decode h).trans hi
  rw [decode] at h
  split at h
  · obtain ⟨rfl, rfl⟩ := Prod.mk.inj h
    rwa [map_bytes_nil rfl]
  · rename_i d taken out hfeed
    obtain ⟨rfl, rfl⟩ := Prod.mk.inj h
    have hends := (comes_of_not_ended hi').mp hr
    refine (comes_of_not_ended hi).mpr ?_
    rcases hin with rfl | rfl
    · have hfed : Zstd.Ends i.decoder ([] ++ (i.held ++ wire)) (r?.map (out.toList ++ ·)) :=
        .feed hfeed (by simpa using hends)
      exact hfed
    · refine Zstd.Ends.feed hfeed ?_
      cases hheld : i.held <;> simpa [hheld] using hends

/-- Reading on goes on to what the reader comes to. -/
theorem Looped.comes (h : Looped n fuel i s r i' s') (hi : i.ended = false) (hr : i'.Comes s'.bytes r?) :
    i.Comes s.bytes (r?.map (r.bytes ++ ·)) := by
  induction h with
  | stuck i s => rwa [map_bytes_nil rfl]
  | failed hfill =>
    obtain ⟨hbytes, herror, -⟩ := bytes_fill hfill
    rw [map_bytes_nil rfl]
    exact hr.congr hi hi rfl (hbytes.trans (by simp [herror _ rfl])).symm
  | ended hfill hmay =>
    obtain ⟨hheld, hnil, -⟩ := nil_of_fill hfill
    obtain rfl := (comes_of_ended rfl).mp hr
    rw [comes_of_not_ended hi, hheld, hnil]
    exact .ended hmay
  | short hfill hmay =>
    obtain ⟨-, hnil, hnil'⟩ := nil_of_fill hfill
    rw [map_bytes_nil rfl, hnil, ← hnil']
    exact hr
  | decoded hfill _ hdecode _ =>
    exact (comes_decode hdecode hi (.inr rfl) hr).congr hi hi rfl (bytes_fill hfill).1.symm
  | again hfill _ hdecode _ ih =>
    have hnext := comes_decode hdecode hi (.inr rfl) (ih ((ended_decode hdecode).trans hi) hr)
    rw [map_bytes_nil rfl] at hnext
    exact hnext.congr hi hi rfl (bytes_fill hfill).1.symm

theorem Looped.ended_of_nil (h : Looped n fuel i s r i' s') (hr : r = .ok []) : i'.ended = true := by
  induction h with
  | stuck | failed | short => cases hr
  | ended => rfl
  | decoded _ _ _ hsome => exact absurd hr hsome
  | again _ _ _ _ ih => exact ih hr

/-- A read goes on to what the reader comes to, and brings nothing only at its end. -/
theorem comes_read (h : i.read s n = (r, i', s')) :
    (∀ r?, i'.Comes s'.bytes r? → i.Comes s.bytes (r?.map (r.bytes ++ ·))) ∧ (r = .ok [] → i'.ended = true) := by
  cases readOut h with
  | ended hi => exact ⟨fun _ hr => by rwa [map_bytes_nil rfl], fun _ => hi⟩
  | decoded hi hdecode hsome => exact ⟨fun _ hr => comes_decode hdecode hi (.inl rfl) hr, fun hr => absurd hr hsome⟩
  | looped hi hdecode hlooped =>
    refine ⟨fun r? hr => ?_, hlooped.ended_of_nil⟩
    have hnext := comes_decode hdecode hi (.inl rfl) (hlooped.comes ((ended_decode hdecode).trans hi) hr)
    rwa [map_bytes_nil rfl] at hnext

/-- A read keeps to what the reader brings, and brings nothing only at its end. -/
theorem brings_read (h : i.read s n = (r, i', s')) :
    (∀ rest, i'.Brings s'.bytes rest → i.Brings s.bytes (r.bytes ++ rest)) ∧
      (r = .ok [] → i'.ended = true) := by
  obtain ⟨hcomes, hends⟩ := comes_read h
  exact ⟨fun rest hrest => brings_iff.mpr (hcomes (some rest) (brings_iff.mp hrest)), hends⟩

end Depot.Inflate
