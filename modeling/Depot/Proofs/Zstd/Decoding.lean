import Depot.Zstd.Decoder
import Depot.Codec

/-!
# Decoding in pieces

A compressed payload is fed to a decoder in pieces, each with some room for what comes out. `Feeds`
is the relation between the payload that was taken and the contents that were handed out, over any
cutting into pieces and any rooms; `Decodes` is a payload that was taken to its end.

A payload that is fed in one way may decode, and be refused or be too short in another one, as far as these
relations say; `ChunkingIndependent` is a payload of which that does not happen.

## Main results

* `Feeds.trans` — feeding goes on where it stopped.
* `ends_some_iff` — a payload can come to its contents if it decodes to them.
* `decodes_of_inflate` — decompressing a payload at once is one of the ways to feed it.
-/

namespace Depot.Zstd

open Decoder

/-- Feeding `wire` to a decoder hands out `plain`. A piece that is not taken whole comes back in
front of what follows it. -/
inductive Feeds : Decoder → Bytes → Bytes → Decoder → Prop
  | refl (d : Decoder) : Feeds d [] [] d
  | feed {d d₁ d₂ : Decoder} {input rest plain : Bytes} {room taken : Nat} {out : ByteArray}
      (h : d.feed (Bytes.pack input) room = .ok (d₁, taken, out))
      (next : Feeds d₁ (input.drop taken ++ rest) plain d₂) :
      Feeds d (input ++ rest) (out.toList ++ plain) d₂

/-- Whether `plain` is what a complete compressed payload stands for. -/
def Decodes (wire plain : Bytes) : Prop := ∃ d, Feeds {} wire plain d ∧ d.mayEnd = true

namespace Feeds

/-- Feeding goes on where it stopped. -/
theorem trans {d₁ d₂ d₃ : Decoder} {w₁ w₂ p₁ p₂ : Bytes} (h₁ : Feeds d₁ w₁ p₁ d₂)
    (h₂ : Feeds d₂ w₂ p₂ d₃) : Feeds d₁ (w₁ ++ w₂) (p₁ ++ p₂) d₃ := by
  induction h₁ with
  | refl d => exact h₂
  | feed h _ ih =>
    have next := ih h₂
    rw [List.append_assoc] at next
    rw [List.append_assoc, List.append_assoc]
    exact .feed h next

/-- Feeding one piece that is taken whole. -/
theorem of_whole {d d₁ d₂ : Decoder} {input rest plain : Bytes} {room : Nat} {out : ByteArray}
    (h : d.feed (Bytes.pack input) room = .ok (d₁, input.length, out))
    (next : Feeds d₁ rest plain d₂) : Feeds d (input ++ rest) (out.toList ++ plain) d₂ :=
  .feed h (by rwa [List.drop_length])

end Feeds

/-! ## Every way to an end -/

/-- Whether feeding `wire` in some way can come to this end: the contents, or nothing where the payload is refused or
too short. -/
inductive Ends : Decoder → Bytes → Option Bytes → Prop
  | ended {d : Decoder} (h : d.mayEnd = true) : Ends d [] (some [])
  | short {d : Decoder} (hpending : d.pending = 0) (h : d.mayEnd = false) : Ends d [] none
  | refused {d : Decoder} {input rest : Bytes} {room : Nat} {e : Fault}
      (h : d.feed (Bytes.pack input) room = .error e) : Ends d (input ++ rest) none
  | feed {d d₁ : Decoder} {input rest : Bytes} {room taken : Nat} {out : ByteArray} {r : Option Bytes}
      (h : d.feed (Bytes.pack input) room = .ok (d₁, taken, out)) (next : Ends d₁ (input.drop taken ++ rest) r) :
      Ends d (input ++ rest) (r.map (out.toList ++ ·))

/-- Whether a payload comes to the same end however it is cut into pieces, and however much room there is. -/
def ChunkingIndependent (wire : Bytes) : Prop := ∀ r r', Ends {} wire r → Ends {} wire r' → r = r'

theorem ends_some_iff {d : Decoder} {wire plain : Bytes} :
    Ends d wire (some plain) ↔ ∃ d', Feeds d wire plain d' ∧ d'.mayEnd = true := by
  constructor
  · intro h
    generalize hr : some plain = r at h
    induction h generalizing plain with
    | ended h =>
      obtain rfl := Option.some.inj hr
      exact ⟨_, .refl _, h⟩
    | short _ _ => cases hr
    | refused _ => cases hr
    | feed h _ ih =>
      obtain ⟨more, rfl, rfl⟩ := Option.map_eq_some_iff.mp hr.symm
      obtain ⟨d', hfeeds, hend⟩ := ih rfl
      exact ⟨d', .feed h hfeeds, hend⟩
  · rintro ⟨d', hfeeds, hend⟩
    induction hfeeds with
    | refl d => exact .ended hend
    | feed h _ ih => exact .feed (r := some _) h (ih hend)

/-! ## Decompressing at once -/

theorem feeds_of_loop {fuel : Nat} {d : Decoder} {input : Bytes} {acc : List Bytes} {plain : Bytes}
    (h : Codec.inflate.loop fuel d input acc = .ok plain) :
    ∃ more d', plain = acc.reverse.flatten ++ more ∧ Feeds d input more d' ∧ d'.mayEnd = true := by
  induction fuel generalizing d input acc with
  | zero => simp [Codec.inflate.loop] at h
  | succ fuel ih =>
    rw [Codec.inflate.loop] at h
    split at h
    · cases h
    · rename_i d₁ taken out hfeed
      have step : ∀ {more d'}, Feeds d₁ (input.drop taken) more d' →
          Feeds d input (out.toList ++ more) d' := by
        intro more d' next
        have hfed : Feeds d (input ++ []) (out.toList ++ more) d' :=
          .feed hfeed (by rwa [List.append_nil])
        rwa [List.append_nil] at hfed
      dsimp only at h
      split at h
      · rename_i hstop
        obtain ⟨hrest, -⟩ := hstop
        split at h
        · rename_i hend
          have hnil : input.drop taken = [] := List.isEmpty_iff.mp hrest
          refine ⟨out.toList ++ [], d₁, ?_, step (hnil ▸ .refl d₁), hend⟩
          cases h
          simp
        · cases h
      · obtain ⟨more, d', hplain, hfeeds, hend⟩ := ih h
        exact ⟨out.toList ++ more, d', by simpa using hplain, step hfeeds, hend⟩

/-- What a payload decompresses to at once is what it stands for. -/
theorem decodes_of_inflate {wire plain : Bytes} (h : Codec.inflate wire = .ok plain) :
    Decodes wire plain := by
  obtain ⟨more, d, hplain, hfeeds, hend⟩ := feeds_of_loop h
  rw [hplain]
  exact ⟨d, by simpa using hfeeds, hend⟩

end Depot.Zstd
