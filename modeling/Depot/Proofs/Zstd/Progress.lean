import Depot.Proofs.Zstd.Steps

/-!
# A decoder gets on

Between two pieces a decoder always lacks some bytes, unless contents wait to be handed out. So whenever it is fed
again it takes something or hands something out, and its steps come to an end before they are counted out.

## Main definitions

* `Phase.Waits`, `Decoder.Rested` — a phase that lacks some bytes, and a decoder between two pieces.

## Main results

* `Decoder.Advance` — what one step does to the piece.
* `Decoder.Rested.feed` — what feeding a piece does.
-/

namespace Depot.Zstd

/-- Whether a phase lacks some bytes. -/
def Phase.Waits : Phase → Prop
  | .header held => ∃ need, headerSize held = .ok need ∧ held.size < need
  | .blockHeader held => held.size < 3
  | .raw left _ => 0 < left
  | .block h held => held.size < h.length
  | .checksum held => held.size < 4
  | .skip left => 0 < left
  | .ended => False

/-- Whether a phase lacks some bytes or is over. -/
def Phase.Fits (p : Phase) : Prop := p.Waits ∨ p = .skip 0 ∨ p = .ended

theorem byteAt_append {b : ByteArray} {i : Nat} (h : i < b.size) (c : ByteArray) : byteAt (b ++ c) i = byteAt b i := by
  have hi : i < (b ++ c).size := by rw [ByteArray.size_append]; omega
  rw [byteAt, byteAt, dif_pos hi, dif_pos h, ByteArray.getElem_append_left h]

theorem numberAt_append {b : ByteArray} {width i : Nat} (h : i + width ≤ b.size) (c : ByteArray) :
    numberAt (b ++ c) width i = numberAt b width i := by
  induction width generalizing i with
  | zero => rfl
  | succ width ih => rw [numberAt, numberAt, byteAt_append (by omega), ih (by omega)]

/-- The first bytes of a header tell its size once and for all. -/
theorem headerSize_append {b : ByteArray} (h : 5 ≤ b.size) (c : ByteArray) : headerSize (b ++ c) = headerSize b := by
  have hboth : ¬ (b ++ c).size < 5 := by rw [ByteArray.size_append]; omega
  rw [headerSize, headerSize, if_neg hboth, if_neg (Nat.not_lt.mpr h), numberAt_append (by omega),
    byteAt_append (by omega)]

/-- A header that was taken up lacks some bytes as long as it is short of what was needed. -/
theorem headerSize_of_lt {b c : ByteArray} {need size : Nat} (hneed : headerSize b = .ok need)
    (hsize : headerSize (b ++ c) = .ok size) (hless : (b ++ c).size < need) : (b ++ c).size < size := by
  -- short of five bytes a header needs five; from there on they tell its size
  by_cases hlong : 5 ≤ b.size
  · rw [headerSize_append hlong, hneed] at hsize
    obtain rfl := Except.ok.inj hsize
    exact hless
  · obtain rfl := Decoder.headerSize_of_short (Nat.lt_of_not_le hlong) hneed
    rwa [Decoder.headerSize_of_short hless hsize]

theorem blocksEnd?_bounds {b : ByteArray} {fuel start stop : Nat} (h : blocksEnd? b fuel start = some stop) :
    start < stop := by
  induction fuel generalizing start with
  | zero => cases h
  | succ fuel ih =>
    rw [blocksEnd?] at h
    split at h
    · cases h
    · split at h
      · cases h
      · dsimp only at h
        split at h
        · cases h
        · split at h
          · obtain rfl := Option.some.inj h
            omega
          · have hnext := ih h
            omega

theorem frameLength?_bounds {b : ByteArray} {head length : Nat} {checksum : Bool}
    (h : frameLength? b head checksum = some length) : 0 < length ∧ length ≤ b.size := by
  obtain ⟨stop, hstop, hlength⟩ := Option.bind_eq_some_iff.mp h
  have hpos := blocksEnd?_bounds hstop
  have hbound : ∀ k, stop ≤ k → (if k ≤ b.size then some k else none) = some length → 0 < length ∧ length ≤ b.size := by
    intro k hk hsome
    split at hsome
    · obtain rfl := Option.some.inj hsome
      omega
    · cases hsome
  cases checksum with
  | false => exact hbound stop (Nat.le_refl _) hlength
  | true => exact hbound (stop + 4) (Nat.le_add_right ..) hlength

namespace Decoder

variable {d d' : Decoder} {f f' : Feed} {more fresh isLast : Bool} {count : Nat}

/-! ## Where a step leads -/

theorem fits_afterBlocks (d : Decoder) : d.afterBlocks.phase.Fits := by
  rw [afterBlocks]
  split
  · exact .inl (by decide : ByteArray.empty.size < 4)
  · exact .inr (.inr rfl)

theorem waits_blockHeader : (Phase.blockHeader ByteArray.empty).Waits := by
  show ByteArray.empty.size < 3
  decide

theorem waits_atEnd (d : Decoder) : d.atEnd.phase.Waits :=
  ⟨5, rfl, by decide⟩

theorem fits_afterBlock (h : d.afterBlock isLast = .ok d') : d'.phase.Fits := by
  rw [afterBlock] at h
  split at h
  · split at h
    · cases h
    · obtain rfl := Except.ok.inj h
      exact fits_afterBlocks d
  · obtain rfl := Except.ok.inj h
    exact .inl waits_blockHeader

theorem fits_afterBlockHeader {b : BlockHeader} (h : d.afterBlockHeader b = .ok d') :
    d'.phase.Fits ∧ d'.pending = d.pending := by
  rw [afterBlockHeader] at h
  split at h
  · cases h
  · split at h
    · obtain rfl := Except.ok.inj h
      split
      · exact ⟨fits_afterBlocks d, rfl⟩
      · exact ⟨.inl waits_blockHeader, rfl⟩
    · rename_i hlength
      split at h
      · rename_i hkind
        obtain rfl := Except.ok.inj h
        have hsize : b.length = b.size := by simp [BlockHeader.length, hkind]
        exact ⟨.inl (Nat.pos_of_ne_zero (hsize ▸ hlength)), rfl⟩
      · obtain rfl := Except.ok.inj h
        exact ⟨.inl (Nat.pos_of_ne_zero hlength : ByteArray.empty.size < b.length), rfl⟩

theorem fits_afterHeader {header : Header} (h : d.afterHeader header = .ok d') : d'.phase.Fits := by
  cases header with
  | skippable n =>
    obtain rfl := Except.ok.inj h
    rcases Nat.eq_zero_or_pos n with rfl | hn
    · exact .inr (.inl rfl)
    · exact .inl hn
  | frame window content dictionary checksum =>
    simp only [afterHeader] at h
    split at h
    · cases h
    · split at h
      · cases h
      · obtain rfl := Except.ok.inj h
        exact .inl waits_blockHeader

theorem fits_decodeBlock {b : BlockHeader} {bytes : ByteArray} (h : d.decodeBlock b bytes = .ok d') :
    d'.phase.Fits := by
  rw [decodeBlock] at h
  split at h
  · split at h
    · cases h
    · exact fits_afterBlock h
  · cases hblock : Block.decode d.heritage d.history bytes 0 bytes.size d.limit with
    | error e =>
      rw [hblock] at h
      cases h
    | ok x =>
      rw [hblock] at h
      exact fits_afterBlock h

/-! ## What a step does to the piece -/

/-- What a step makes of a piece. A decoder that goes on has taken something off it; one that does not go on lacks
some bytes, and has nothing to hand out. -/
structure Advance (d : Decoder) (f : Feed) (more : Bool) (d' : Decoder) (f' : Feed) : Prop where
  input : f'.input = f.input
  taken_le : f.taken ≤ f.input.size → f'.taken ≤ f.input.size
  output_le : f.output.size ≤ f'.output.size
  idle : f'.taken = 0 → f.taken = 0 ∧ f'.output = f.output
  on : more = true → d'.phase.Fits ∧ f'.left < f.left ∧ 0 < f'.taken ∧ f'.room = f.room ∧ f'.output = f.output
  off : more = false → d'.phase.Waits ∧ d'.pending = 0
  gets : d.phase.Waits → f.left ≠ 0 → 0 < f'.taken

/-- A step that takes at most `count` bytes. -/
theorem advance_take (hon : more = true → d'.phase.Fits ∧ 0 < min count f.left)
    (hoff : more = false → d'.phase.Waits ∧ d'.pending = 0) (hgets : d.phase.Waits → 0 < count) :
    Advance d f more d' (f.take count).2 := by
  have htaken : (f.take count).2.taken = f.taken + min count f.left := rfl
  have hleft : (f.take count).2.left = f.input.size - (f.taken + min count f.left) := rfl
  have hall : f.left = f.input.size - f.taken := rfl
  refine ⟨rfl, fun _ => by omega, Nat.le_refl _, fun h => ⟨by omega, rfl⟩, fun h => ?_, hoff, fun hw hl => ?_⟩
  · obtain ⟨hfits, hcount⟩ := hon h
    exact ⟨hfits, by omega, by omega, rfl, rfl⟩
  · have hcount := hgets hw
    omega

/-- A frame that is decoded in one go. -/
theorem advance_wholeFrame {head : Nat} {header : Header}
    (h : wholeFrame? (f.take count).2 head header = some (.ok f')) : Advance d f false d.atEnd f' := by
  cases header with
  | skippable n => cases h
  | frame window content dictionary checksum =>
    cases content with
    | none => cases h
    | some content =>
      simp only [wholeFrame?] at h
      split at h
      · cases h
      · obtain ⟨length, hlength, hdone⟩ := Option.map_eq_some_iff.mp h
        obtain ⟨hpos, hin⟩ := frameLength?_bounds hlength
        generalize decodeFrame _ head _ window content dictionary checksum = out at hdone
        cases out with
        | error e => cases hdone
        | ok out =>
          obtain rfl := Except.ok.inj hdone
          refine ⟨rfl, fun _ => hin, ?_, fun hzero => ?_, (fun hon => by cases hon),
            fun _ => ⟨waits_atEnd d, rfl⟩, fun _ _ => hpos⟩
          · show f.output.size ≤ (f.output ++ out).size
            rw [ByteArray.size_append]
            omega
          · exact absurd hzero (Nat.ne_of_gt hpos)

section Steps

variable {held : ByteArray} (hpending : d.pending = 0) (h : step fresh d f = .ok (more, d', f'))
include hpending h

theorem advance_header (hphase : d.phase = .header held) (hwaits : d.phase.Waits) : Advance d f more d' f' := by
  rw [hphase] at hwaits
  obtain ⟨need', hneed', hshort⟩ := hwaits
  have hlacks {need : Nat} (hneed : headerSize held = .ok need) : held.size < need := by
    obtain rfl := Except.ok.inj (hneed'.symm.trans hneed)
    exact hshort
  cases headerStep_of_step hphase h with
  | starved hneed hheld hsize hless hmore hd =>
    have hbound := hlacks hneed
    subst hmore hd
    refine hheld.feed_eq ▸ advance_take (by simp) (fun _ => ⟨⟨_, hsize, ?_⟩, hpending⟩) fun _ => by omega
    rw [hheld.held_eq] at hsize hless ⊢
    exact headerSize_of_lt hneed hsize hless
  | partly hneed hheld hsize henough hless hmore hd =>
    have hbound := hlacks hneed
    have hcount := hheld.size_eq
    rw [Feed.length_rest] at hcount
    subst hmore hd
    exact hheld.feed_eq ▸ advance_take (fun _ => ⟨.inl ⟨_, hsize, hless⟩, by omega⟩) (by simp) fun _ => by omega
  | whole hneed hheld _ _ _ _ hframe hmore hd =>
    subst hmore hd
    rw [hheld.feed_eq] at hframe
    exact advance_wholeFrame hframe
  | begun hneed hheld _ henough _ _ hmore hafter =>
    have hbound := hlacks hneed
    have hcount := hheld.size_eq
    rw [Feed.length_rest] at hcount
    subst hmore
    exact hheld.feed_eq ▸ advance_take (fun _ => ⟨fits_afterHeader hafter, by omega⟩) (by simp) fun _ => by omega

theorem advance_blockHeader (hphase : d.phase = .blockHeader held) (hwaits : d.phase.Waits) :
    Advance d f more d' f' := by
  have hlacks : held.size < 3 := by rwa [hphase] at hwaits
  cases blockHeaderStep_of_step hphase h with
  | starved hheld hless hmore hd =>
    subst hmore hd
    exact hheld.feed_eq ▸ advance_take (by simp) (fun _ => ⟨hless, hpending⟩) fun _ => by omega
  | whole hheld henough _ hmore hafter =>
    have hcount := hheld.size_eq
    rw [Feed.length_rest] at hcount
    subst hmore
    exact hheld.feed_eq ▸ advance_take (fun _ => ⟨(fits_afterBlockHeader hafter).1, by omega⟩) (by simp)
      fun _ => by omega

theorem advance_raw {left : Nat} (hphase : d.phase = .raw left isLast) (hwaits : d.phase.Waits) :
    Advance d f more d' f' := by
  have hlacks : 0 < left := by rwa [hphase] at hwaits
  have hsize := f.size_take left
  obtain ⟨hraw, rfl⟩ := rawStep_of_step hphase h
  have htaken (hsome : (f.take left).1.isEmpty = false) : 0 < min left f.left :=
    hsize ▸ Nat.pos_of_ne_zero (by simpa [ByteArray.isEmpty] using hsome)
  cases hraw with
  | nothing _ hmore hd =>
    subst hmore hd
    exact advance_take (by simp) (fun _ => ⟨hwaits, hpending⟩) fun _ => hlacks
  | whole _ hsome hmore hafter =>
    subst hmore
    exact advance_take (fun _ => ⟨fits_afterBlock hafter, htaken hsome⟩) (by simp) fun _ => hlacks
  | some hbytes hsome hmore hd =>
    subst hmore hd
    refine advance_take (fun _ => ⟨.inl ?_, htaken hsome⟩) (by simp) fun _ => hlacks
    show 0 < left - (f.take left).1.size
    omega

theorem advance_block {b : BlockHeader} (hphase : d.phase = .block b held) (hwaits : d.phase.Waits) :
    Advance d f more d' f' := by
  have hlacks : held.size < b.length := by rwa [hphase] at hwaits
  simp only [step, hphase] at h
  generalize hcollect : collect f held b.length = x at h
  obtain ⟨held', f₁⟩ := x
  have hheld := collected hcollect
  have hcount := hheld.size_eq
  rw [Feed.length_rest] at hcount
  obtain rfl := hheld.feed_eq
  dsimp only at h
  split at h
  · rename_i hless
    obtain ⟨rfl, rfl, rfl⟩ : _ ∧ _ ∧ _ := by simpa [pure, Except.pure] using h
    exact advance_take (by simp) (fun _ => ⟨hless, hpending⟩) fun _ => by omega
  · simp only [bind, Except.bind] at h
    cases hdecode : d.decodeBlock b held' with
    | error e =>
      rw [hdecode] at h
      cases h
    | ok d₁ =>
      rw [hdecode] at h
      obtain ⟨rfl, rfl, rfl⟩ : _ ∧ _ ∧ _ := by simpa [pure, Except.pure] using h
      exact advance_take (fun _ => ⟨fits_decodeBlock hdecode, by omega⟩) (by simp) fun _ => by omega

theorem advance_checksum (hphase : d.phase = .checksum held) (hwaits : d.phase.Waits) : Advance d f more d' f' := by
  have hlacks : held.size < 4 := by rwa [hphase] at hwaits
  simp only [step, hphase] at h
  generalize hcollect : collect f held 4 = x at h
  obtain ⟨held', f₁⟩ := x
  have hheld := collected hcollect
  have hcount := hheld.size_eq
  rw [Feed.length_rest] at hcount
  obtain rfl := hheld.feed_eq
  dsimp only at h
  split at h
  · rename_i hless
    obtain ⟨rfl, rfl, rfl⟩ : _ ∧ _ ∧ _ := by simpa [pure, Except.pure] using h
    exact advance_take (by simp) (fun _ => ⟨hless, hpending⟩) fun _ => by omega
  · split at h
    · cases h
    · obtain ⟨rfl, rfl, rfl⟩ : _ ∧ _ ∧ _ := by simpa [pure, Except.pure, bind, Except.bind] using h
      exact advance_take (by simp) (fun _ => ⟨waits_atEnd d, rfl⟩) fun _ => by omega

theorem advance_skip {left : Nat} (hphase : d.phase = .skip left) : Advance d f more d' f' := by
  have hsize := f.size_take left
  simp only [step, hphase] at h
  generalize htake : f.take left = x at h hsize
  obtain ⟨bytes, f₁⟩ := x
  obtain rfl : (f.take left).2 = f₁ := congrArg Prod.snd htake
  dsimp only at h hsize
  have hgets (hwaits : d.phase.Waits) : 0 < left := by rwa [hphase] at hwaits
  split at h
  · obtain ⟨rfl, rfl, rfl⟩ : _ ∧ _ ∧ _ := by simpa [pure, Except.pure] using h
    exact advance_take (by simp) (fun _ => ⟨waits_atEnd d, rfl⟩) hgets
  · obtain ⟨rfl, rfl, rfl⟩ : _ ∧ _ ∧ _ := by simpa [pure, Except.pure] using h
    exact advance_take (by simp) (fun _ => ⟨by show 0 < left - bytes.size; omega, hpending⟩) hgets

/-- What one step makes of a piece. -/
theorem advance_of_step (hfits : d.phase.Fits) : Advance d f more d' f' := by
  have hwaits : d.phase ≠ .ended → (∀ left, d.phase ≠ .skip left) → d.phase.Waits := fun hended hskip =>
    hfits.elim id fun hover => (hover.elim (hskip 0) hended).elim
  cases hphase : d.phase with
  | header held => exact advance_header hpending h hphase (hwaits (by simp [hphase]) (by simp [hphase]))
  | blockHeader held => exact advance_blockHeader hpending h hphase (hwaits (by simp [hphase]) (by simp [hphase]))
  | raw left isLast => exact advance_raw hpending h hphase (hwaits (by simp [hphase]) (by simp [hphase]))
  | block b held => exact advance_block hpending h hphase (hwaits (by simp [hphase]) (by simp [hphase]))
  | checksum held => exact advance_checksum hpending h hphase (hwaits (by simp [hphase]) (by simp [hphase]))
  | skip left => exact advance_skip hpending h hphase
  | ended =>
    rw [step_ended hphase] at h
    obtain ⟨rfl, rfl, rfl⟩ : _ ∧ _ ∧ _ := by simpa using h
    refine ⟨rfl, id, Nat.le_refl _, fun hzero => ⟨hzero, rfl⟩, (fun hon => by cases hon),
      fun _ => ⟨waits_atEnd d, rfl⟩, fun hover => ?_⟩
    rw [hphase] at hover
    exact hover.elim

end Steps

/-! ## Runs -/

/-- A decoder between two pieces: it lacks some bytes, unless contents wait to be handed out. -/
structure Rested (d : Decoder) : Prop where
  fits : d.phase.Fits
  waits : d.pending = 0 → d.phase.Waits

theorem rested_start : ({} : Decoder).Rested where
  fits := .inl ⟨5, rfl, by decide⟩
  waits _ := ⟨5, rfl, by decide⟩

theorem pending_flush (d : Decoder) (f : Feed) : (d.flush f).1.pending = d.pending - min d.pending f.room := by
  show d.history.size - (d.given + min d.pending f.room) = d.history.size - d.given - _
  omega

theorem size_output_flush (d : Decoder) (f : Feed) :
    (d.flush f).2.output.size = f.output.size + min d.pending f.room := by
  show (f.output ++ d.history.extract d.given (d.given + min d.pending f.room)).size = _
  rw [ByteArray.size_append, ByteArray.size_extract, pending]
  omega

/-- What a run makes of a piece. What was handed out without taking anything waited before; and a run that hands out
nothing leaves nothing to hand out, and has taken something if there was anything to take. -/
structure Ran (d : Decoder) (f : Feed) (d' : Decoder) (f' : Feed) : Prop where
  rested : d'.Rested
  taken_le : f.taken ≤ f.input.size → f'.taken ≤ f.input.size
  output_le : f.output.size ≤ f'.output.size
  idle : f'.taken = 0 → f.taken = 0 ∧ d'.pending + f'.output.size ≤ d.pending + f.output.size
  dry : f.room ≠ 0 → f'.output.size = f.output.size → d'.pending = 0 ∧ (d.Rested → f.left ≠ 0 → 0 < f'.taken)

section Runs

variable {d₁ d₂ : Decoder} {f₁ f₂ : Feed} (hflush : d.flush f = (d₁, f₁))
include hflush

/-- Handing out leaves the piece and the phase alone. -/
theorem flush_spec : d₁.phase = d.phase ∧ f₁.input = f.input ∧ f₁.taken = f.taken ∧ f₁.left = f.left ∧
    f₁.room = f.room - min d.pending f.room ∧ d₁.pending = d.pending - min d.pending f.room ∧
    f₁.output.size = f.output.size + min d.pending f.room := by
  have hpending := pending_flush d f
  have houtput := size_output_flush d f
  obtain ⟨rfl, rfl⟩ := Prod.mk.inj hflush
  exact ⟨rfl, rfl, rfl, rfl, rfl, hpending, houtput⟩

/-- A run that ends because there is no room for all that waits. -/
theorem ran_of_waiting (hfits : d.phase.Fits) (hwaiting : 0 < d₁.pending) : Ran d f d₁ f₁ := by
  obtain ⟨hphase, hinput, htaken, -, -, hpending, houtput⟩ := flush_spec hflush
  exact ⟨⟨hphase ▸ hfits, fun hnone => by omega⟩, fun hin => by omega, by omega, fun hzero => by omega,
    fun hsome hsame => by omega⟩

/-- A run that ends with a step. -/
theorem ran_of_off (h : Advance d₁ f₁ false d₂ f₂) : Ran d f d₂ f₂ := by
  obtain ⟨hphase, hinput, htaken, hleft, -, -, houtput⟩ := flush_spec hflush
  obtain ⟨hwaits, hempty⟩ := h.off rfl
  have hless := h.output_le
  have hin := h.taken_le
  rw [hinput, htaken] at hin
  refine ⟨⟨.inl hwaits, fun _ => hwaits⟩, hin, by omega, fun hzero => ?_, fun hsome hsame => ⟨hempty, ?_⟩⟩
  · obtain ⟨hzero, hsame⟩ := h.idle hzero
    rw [hsame]
    omega
  · exact fun hrested hall => h.gets (hphase ▸ hrested.waits (by omega)) (hleft ▸ hall)

/-- A run that goes on behind a step. -/
theorem ran_of_on (h : Advance d₁ f₁ true d₂ f₂) (hran : Ran d₂ f₂ d' f') : Ran d f d' f' := by
  obtain ⟨-, hinput, htaken, -, hroom, -, houtput⟩ := flush_spec hflush
  obtain ⟨-, -, hpos, hroom₂, houtput₂⟩ := h.on rfl
  have hin := h.taken_le
  have hin₂ := hran.taken_le
  have hless₂ := hran.output_le
  rw [hinput, htaken] at hin
  rw [h.input, hinput] at hin₂
  rw [houtput₂] at hless₂
  -- the step took something, and the run behind it does not give it back
  have hsome : f'.taken ≠ 0 := fun hzero => absurd (hran.idle hzero).1 (Nat.ne_of_gt hpos)
  refine ⟨hran.rested, fun hall => hin₂ (hin hall), by omega, fun hzero => absurd hzero hsome, fun hroom' hsame => ?_⟩
  obtain ⟨hempty, -⟩ := hran.dry (by omega) (by rw [houtput₂]; omega)
  exact ⟨hempty, fun _ _ => Nat.pos_of_ne_zero hsome⟩

end Runs

/-- A run comes to its end before its steps are counted out, because each step that is followed by another one takes
something. -/
theorem ran_of_run {fuel : Nat} (hfits : d.phase.Fits) (hfuel : f.left < fuel)
    (h : run fresh fuel d f = .ok (d', f')) : Ran d f d' f' := by
  induction fuel generalizing d f with
  | zero => omega
  | succ fuel ih =>
    rw [run] at h
    generalize hflush : d.flush f = x at h
    obtain ⟨d₁, f₁⟩ := x
    obtain ⟨hphase, -, -, hleft, -⟩ := flush_spec hflush
    dsimp only at h
    split at h
    · rename_i hwaiting
      obtain ⟨rfl, rfl⟩ := Prod.mk.inj (Except.ok.inj h)
      exact ran_of_waiting hflush hfits hwaiting
    · rename_i hdone
      have hnone : d₁.pending = 0 := Nat.eq_zero_of_not_pos hdone
      cases hstep : step fresh d₁ f₁ with
      | error e =>
        rw [hstep] at h
        cases h
      | ok y =>
        obtain ⟨more, d₂, f₂⟩ := y
        have hadvance := advance_of_step hnone hstep (hphase ▸ hfits)
        rw [hstep] at h
        cases more with
        | false =>
          change Except.ok (d₂, f₂) = _ at h
          obtain ⟨rfl, rfl⟩ := Prod.mk.inj (Except.ok.inj h)
          exact ran_of_off hflush hadvance
        | true =>
          change run fresh fuel d₂ f₂ = _ at h
          obtain ⟨hfits₂, hnearer, -⟩ := hadvance.on rfl
          exact ran_of_on hflush hadvance (ih hfits₂ (by omega) h)

/-- What feeding a piece does. -/
structure Fed (d : Decoder) (input : Bytes) (room : Nat) (d' : Decoder) (taken : Nat) (out : Bytes) : Prop where
  rested : d'.Rested
  taken_le : taken ≤ input.length
  idle : taken = 0 → d'.pending + out.length ≤ d.pending
  dry : room ≠ 0 → out = [] → d'.pending = 0 ∧ (input ≠ [] → 0 < taken)

theorem Rested.feed {input : Bytes} {room taken : Nat} {out : ByteArray} (hd : d.Rested)
    (h : d.feed (Bytes.pack input) room = .ok (d', taken, out)) : Fed d input room d' taken out.toList := by
  rw [Decoder.feed] at h
  generalize hrun :
    run _ (3 * (Bytes.pack input).size + 8) d ⟨Bytes.pack input, 0, room, ByteArray.empty⟩ = x at h
  cases x with
  | error e => cases h
  | ok y =>
    obtain ⟨d₁, f₁⟩ := y
    obtain ⟨rfl, hfeed⟩ := Prod.mk.inj (Except.ok.inj h)
    obtain ⟨rfl, rfl⟩ := Prod.mk.inj hfeed
    have hleft : (⟨Bytes.pack input, 0, room, ByteArray.empty⟩ : Feed).left = input.length := rfl
    have hsize : (Bytes.pack input).size = input.length := rfl
    have hran := ran_of_run hd.fits (by omega) hrun
    refine ⟨hran.rested, hran.taken_le (Nat.zero_le _), fun hzero => ?_, fun hroom hnil => ?_⟩
    · rw [Bytes.length_toList]
      exact (hran.idle hzero).2
    · have hempty : f₁.output.size = 0 := by rw [← Bytes.length_toList, hnil, List.length_nil]
      obtain ⟨hnone, hgets⟩ := hran.dry hroom hempty
      exact ⟨hnone, fun hinput => hgets hd fun hzero => hinput (List.eq_nil_of_length_eq_zero (hleft ▸ hzero))⟩

end Decoder

end Depot.Zstd
