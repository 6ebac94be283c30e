import Depot.Proofs.Zstd.Encoding

/-!
# Decoding what was encoded

A decoder is fed a frame of stored blocks: its header, then the header and the contents of one block
after the other. Between two blocks the decoder is in a state that `BetweenBlocks` describes; a full
block leads from one such state to the next, and the last block leads to the end.

## Main results

* `decodes_encode` — a decoder hands out what was encoded.
-/

namespace Depot.Zstd

/-! ## Reading the header of a block -/

theorem byteAt_pack (b : Bytes) (i : Nat) : byteAt (Bytes.pack b) i = (b.getD i 0).toNat := by
  rw [byteAt, List.getD_eq_getElem?_getD]
  split
  · rename_i h
    have hi : i < b.length := h
    rw [List.getElem?_eq_getElem hi]
    rfl
  · rename_i h
    have hi : b.length ≤ i := Nat.le_of_not_lt h
    rw [List.getElem?_eq_none hi]
    rfl

/-- The header of a stored block of `n` bytes. -/
def storedHeader (isLast : Bool) (n : Nat) : Bytes := Bytes.ofNat 3 (8 * n + if isLast then 1 else 0)

theorem storedBlock_eq (isLast : Bool) (c : Bytes) :
    Encoder.storedBlock isLast c = storedHeader isLast c.length ++ c := rfl

theorem readBlockHeader_stored (isLast : Bool) {n : Nat} (hn : n ≤ blockMax) :
    readBlockHeader (Bytes.pack (storedHeader isLast n)) 0 = .ok ⟨isLast, .raw, n⟩ := by
  simp only [blockMax] at hn
  have hnumber : numberAt (Bytes.pack (storedHeader isLast n)) 3 0 =
      8 * n + if isLast then 1 else 0 := by
    simp only [storedHeader, numberAt, byteAt_pack, Bytes.ofNat, List.getD_cons_zero,
      List.getD_cons_succ, UInt8.toNat_ofNat']
    cases isLast <;> simp <;> omega
  have hkind : (8 * n + if isLast then 1 else 0) / 2 % 4 = 0 := by split <;> omega
  have hsize : (8 * n + if isLast then 1 else 0) / 8 = n := by split <;> omega
  have hlast : ((8 * n + if isLast then 1 else 0) % 2 == 1) = isLast := by
    cases isLast <;> simp <;> omega
  rw [readBlockHeader, hnumber]
  simp only [hkind, hsize, hlast]

namespace Decoder

/-! ## Single steps -/

section Steps

variable {fresh more : Bool} {d d₁ d₂ : Decoder} {f f₁ f₂ : Feed}

theorem flush_of_pending_eq_zero (h : d.pending = 0) : d.flush f = (d, f) := by
  simp [flush, h]

/-- One round of a run: hand out, and then step. -/
theorem run_succ (hf : d.flush f = (d₁, f₁)) (hp : d₁.pending = 0)
    (hs : step fresh d₁ f₁ = .ok (more, d₂, f₂)) (fuel : Nat) :
    run fresh (fuel + 1) d f = if more then run fresh fuel d₂ f₂ else .ok (d₂, f₂) := by
  rw [run, hf]
  simp only [hp, hs]
  cases more <;> rfl

/-- A piece that is taken whole. -/
theorem take_whole (b : Bytes) (room count : Nat) (out : ByteArray) (h : b.length ≤ count) :
    (⟨Bytes.pack b, 0, room, out⟩ : Feed).take count =
      (Bytes.pack b, ⟨Bytes.pack b, b.length, room, out⟩) := by
  have hmin : min count b.length = b.length := Nat.min_eq_right h
  simp [Feed.take, Feed.left, hmin, Bytes.extract_pack]

/-- Nothing is taken of a piece that is used up. -/
theorem take_nothing (h : f.left = 0) (count : Nat) : f.take count = (ByteArray.empty, f) := by
  simp [Feed.take, h]

theorem left_used (b : Bytes) (room : Nat) (out : ByteArray) :
    (⟨Bytes.pack b, b.length, room, out⟩ : Feed).left = 0 := by
  simp [Feed.left]

theorem step_ended (h : d.phase = .ended) : step fresh d f = .ok (false, { finished := true }, f) := by
  simp only [step, h, atEnd]
  rfl

/-- A block header of which nothing has arrived. -/
theorem step_blockHeader_nothing (h : d.phase = .blockHeader ByteArray.empty) (hf : f.left = 0) :
    step fresh d f = .ok (false, d, f) := by
  have hd : { d with phase := .blockHeader ByteArray.empty } = d := by rw [← h]
  simp only [step, h, collect, take_nothing hf]
  exact congrArg (fun d => Except.ok (false, d, f)) hd

/-- Contents of a stored block of which nothing has arrived. -/
theorem step_raw_nothing {left : Nat} {isLast : Bool} (h : d.phase = .raw left isLast)
    (hf : f.left = 0) : step fresh d f = .ok (false, d, f) := by
  simp only [step, h, take_nothing hf]
  rfl

end Steps

/-! ## Blocks -/

/-- The phase behind a block. -/
def nextPhase (isLast : Bool) : Phase := if isLast then .ended else .blockHeader ByteArray.empty

/-- A decoder in a frame that announces neither its size nor a checksum. -/
structure Framed (d : Decoder) : Prop where
  limit : d.limit = blockMax
  content : d.content = none
  checksum : d.hasChecksum = false

theorem Framed.afterBlockHeader_stored {d : Decoder} (h : Framed d) (isLast : Bool) {n : Nat} (hn : n ≤ blockMax) :
    d.afterBlockHeader ⟨isLast, .raw, n⟩ =
      .ok { d with phase := if n = 0 then nextPhase isLast else .raw n isLast } := by
  rw [afterBlockHeader, h.limit]
  by_cases hzero : n = 0 <;> cases isLast <;>
    simp [BlockHeader.length, hzero, afterBlocks, h.checksum, h.limit, hn, nextPhase]

theorem Framed.afterBlock_eq {d : Decoder} (h : Framed d) (isLast : Bool) :
    d.afterBlock isLast = .ok { d with phase := nextPhase isLast } := by
  cases isLast <;> simp [afterBlock, h.content, afterBlocks, h.checksum, nextPhase]

/-- A decoder between two blocks of a frame whose blocks are stored. -/
structure BetweenBlocks (d : Decoder) : Prop extends Framed d where
  phase : d.phase = .blockHeader ByteArray.empty
  given : d.given = d.history.size

/-- The decoder behind a stored block with the given contents. -/
def afterStored (d : Decoder) (isLast : Bool) (c : Bytes) : Decoder :=
  if isLast then { finished := true }
  else { d with history := d.history ++ Bytes.pack c, given := d.given + c.length }

/-- A run that has come behind a block ends there. -/
theorem run_nextPhase {d : Decoder} {f : Feed} (isLast : Bool) (hd : d.phase = nextPhase isLast)
    {d₁ : Decoder} {f₁ : Feed} (hf : d.flush f = (d₁, f₁)) (hp : d₁.pending = 0)
    (hleft : f₁.left = 0) (fuel : Nat) :
    run false (fuel + 1) d f = .ok (if isLast then { finished := true } else d₁, f₁) := by
  have hphase : d₁.phase = nextPhase isLast := by
    rw [← hd]
    exact congrArg (fun x => x.1.phase) hf.symm
  cases isLast with
  | true => rw [run_succ hf hp (step_ended hphase)]; rfl
  | false => rw [run_succ hf hp (step_blockHeader_nothing hphase hleft)]; rfl

namespace BetweenBlocks

variable {d : Decoder} (h : BetweenBlocks d)
include h

theorem pending : d.pending = 0 := by
  rw [Decoder.pending, h.given, Nat.sub_self]

/-- The step that reads the header of a stored block. -/
theorem step_header (isLast : Bool) {n : Nat} (hn : n ≤ blockMax) (room : Nat) :
    step false d ⟨Bytes.pack (storedHeader isLast n), 0, room, ByteArray.empty⟩ =
      .ok (true, { d with phase := if n = 0 then nextPhase isLast else .raw n isLast },
        ⟨Bytes.pack (storedHeader isLast n), 3, room, ByteArray.empty⟩) := by
  have htake := take_whole (storedHeader isLast n) room 3 ByteArray.empty (Nat.le_refl 3)
  have hlength : (storedHeader isLast n).length = 3 := rfl
  simp only [step, h.phase, collect, ByteArray.size_empty, Nat.sub_zero, htake,
    ByteArray.empty_append, Bytes.size_pack, readBlockHeader_stored isLast hn]
  rw [if_neg (by omega)]
  exact congrArg (fun r => r >>= fun d => Except.ok (true, d, _)) (h.toFramed.afterBlockHeader_stored isLast hn)

/-- Feeding the header of a stored block. -/
theorem feed_header (isLast : Bool) {n : Nat} (hn : n ≤ blockMax) :
    d.feed (Bytes.pack (storedHeader isLast n)) 0 =
      .ok (if n = 0 then afterStored d isLast [] else { d with phase := .raw n isLast }, 3,
        ByteArray.empty) := by
  let f : Feed := ⟨Bytes.pack (storedHeader isLast n), 3, 0, ByteArray.empty⟩
  have hleft : f.left = 0 := left_used (storedHeader isLast n) 0 ByteArray.empty
  have hrun : ∀ fuel, run false (fuel + 2) d ⟨f.input, 0, 0, ByteArray.empty⟩ =
      .ok (if n = 0 then afterStored d isLast [] else { d with phase := .raw n isLast }, f) := by
    intro fuel
    rw [run_succ (flush_of_pending_eq_zero h.pending) h.pending (h.step_header isLast hn 0), if_pos rfl]
    by_cases hzero : n = 0
    · rw [if_pos hzero, if_pos hzero]
      have hp : ({ d with phase := nextPhase isLast } : Decoder).pending = 0 := h.pending
      refine (run_nextPhase isLast rfl (flush_of_pending_eq_zero hp) hp (f := f) hleft fuel).trans ?_
      cases isLast
      · simp [afterStored, nextPhase, ← h.phase]
      · rfl
    · rw [if_neg hzero, if_neg hzero]
      have hp : ({ d with phase := .raw n isLast } : Decoder).pending = 0 := h.pending
      exact run_succ (flush_of_pending_eq_zero hp) hp (step_raw_nothing rfl hleft) fuel
  rw [feed, h.phase]
  exact congrArg (fun r => r >>= fun x => Except.ok (x.1, x.2.taken, x.2.output)) (hrun 15)

/-- Feeding the contents of a stored block. -/
theorem feed_contents (isLast : Bool) {c : Bytes} (hc : c ≠ []) :
    ({ d with phase := .raw c.length isLast } : Decoder).feed (Bytes.pack c) c.length =
      .ok (afterStored d isLast c, c.length, Bytes.pack c) := by
  let d₁ : Decoder := { d with phase := .raw c.length isLast }
  let d₂ : Decoder := { d with phase := nextPhase isLast, history := d.history ++ Bytes.pack c }
  let d₃ : Decoder := { d₂ with given := d.given + c.length }
  have hp₁ : d₁.pending = 0 := h.pending
  have hp₃ : d₃.pending = 0 := by simp [d₃, d₂, Decoder.pending, h.given]
  have hempty : (Bytes.pack c).isEmpty = false := by
    rw [ByteArray.isEmpty, Bytes.size_pack, beq_eq_false_iff_ne]
    exact mt List.eq_nil_of_length_eq_zero hc
  have hframed : Framed { d₁ with history := d.history ++ Bytes.pack c } := ⟨h.limit, h.content, h.checksum⟩
  have hafter : ({ d₁ with history := d.history ++ Bytes.pack c } : Decoder).afterBlock isLast = .ok d₂ :=
    hframed.afterBlock_eq isLast
  have hstep : step false d₁ ⟨Bytes.pack c, 0, c.length, ByteArray.empty⟩ =
      .ok (true, d₂, ⟨Bytes.pack c, c.length, c.length, ByteArray.empty⟩) := by
    simp only [step, d₁, take_whole c c.length c.length ByteArray.empty (Nat.le_refl _), hempty,
      Bytes.size_pack, if_true]
    exact congrArg (fun r => r >>= fun d => Except.ok (true, d, _)) hafter
  have hflush : d₂.flush ⟨Bytes.pack c, c.length, c.length, ByteArray.empty⟩ =
      (d₃, ⟨Bytes.pack c, c.length, 0, Bytes.pack c⟩) := by
    have hextract : (d.history ++ Bytes.pack c).extract d.history.size (d.history.size + c.length) =
        Bytes.pack c := ByteArray.extract_append_eq_right rfl rfl
    simp [d₂, d₃, flush, Decoder.pending, h.given, hextract]
  have hrun : ∀ fuel, run false (fuel + 2) d₁ ⟨Bytes.pack c, 0, c.length, ByteArray.empty⟩ =
      .ok (afterStored d isLast c, ⟨Bytes.pack c, c.length, 0, Bytes.pack c⟩) := by
    intro fuel
    rw [run_succ (flush_of_pending_eq_zero hp₁) hp₁ hstep, if_pos rfl,
      run_nextPhase isLast rfl hflush hp₃ (left_used ..)]
    cases isLast
    · simp [afterStored, nextPhase, d₃, d₂, ← h.phase]
    · rfl
  exact congrArg (fun r => r >>= fun x => Except.ok (x.1, x.2.taken, x.2.output))
    (hrun (3 * c.length + 6))

/-- Feeding a stored block hands out its contents. -/
theorem feeds_storedBlock (isLast : Bool) {c : Bytes} (hc : c.length ≤ blockMax) {d' : Decoder}
    {wire plain : Bytes} (next : Feeds (afterStored d isLast c) wire plain d') :
    Feeds d (Encoder.storedBlock isLast c ++ wire) (c ++ plain) d' := by
  have hheader := h.feed_header isLast hc
  rw [storedBlock_eq, List.append_assoc]
  cases c with
  | nil => simpa using Feeds.of_whole hheader next
  | cons b rest =>
    have hcontents := Feeds.of_whole (h.feed_contents isLast (List.cons_ne_nil b rest)) next
    rw [if_neg (by simp)] at hheader
    simpa using Feeds.of_whole hheader hcontents

theorem afterStored_full (c : Bytes) : BetweenBlocks (afterStored d false c) where
  phase := h.phase
  limit := h.limit
  content := h.content
  checksum := h.checksum
  given := by simp [afterStored, h.given]

/-- Feeding the blocks of some contents, the last one included. -/
theorem feeds_blocks {full : List Bytes} {left : Bytes} (hfull : ∀ c ∈ full, c.length = blockMax)
    (hleft : left.length ≤ blockMax) :
    Feeds d (fullFrames full ++ Encoder.storedBlock true left) (full.flatten ++ left)
      { finished := true } := by
  induction full generalizing d with
  | nil =>
    have hlast := h.feeds_storedBlock true hleft (.refl _)
    simpa [fullFrames, afterStored] using hlast
  | cons c rest ih =>
    have hrest := ih (h.afterStored_full c) fun x hx => hfull x (List.mem_cons_of_mem _ hx)
    have hsize := Nat.le_of_eq (hfull c (List.mem_cons_self ..))
    have hblock := h.feeds_storedBlock false hsize hrest
    simpa [fullFrames] using hblock

end BetweenBlocks

/-- The decoder behind the header of a frame of stored blocks. -/
def behindHeader : Decoder := { phase := .blockHeader ByteArray.empty, limit := blockMax }

/-- The header of a frame of stored blocks. -/
def frameHeader : ByteArray := Bytes.pack Encoder.header

/-- The part of it that tells its size. -/
def frameFront : ByteArray := Bytes.pack (Encoder.header.take 5)

theorem headerSize_frameFront : headerSize frameFront = .ok 6 := rfl

theorem headerSize_frameHeader : headerSize frameHeader = .ok 6 := rfl

theorem readHeader_frameHeader : readHeader frameHeader = .ok (.frame blockMax none 0 false) := rfl

theorem step_front : step true {} ⟨frameHeader, 0, 0, ByteArray.empty⟩ =
    .ok (true, { phase := .header frameFront }, ⟨frameHeader, 5, 0, ByteArray.empty⟩) := by
  have hneed : headerSize ByteArray.empty = .ok 5 := rfl
  have hcollect : collect ⟨frameHeader, 0, 0, ByteArray.empty⟩ ByteArray.empty 5 =
      (frameFront, ⟨frameHeader, 5, 0, ByteArray.empty⟩) := rfl
  have hsize : frameFront.size = 5 := rfl
  simp only [step, hneed, bind, Except.bind, hcollect, headerSize_frameFront, hsize]
  rfl

theorem step_frameHeader : step true { phase := .header frameFront } ⟨frameHeader, 5, 0, ByteArray.empty⟩ =
    .ok (true, behindHeader, ⟨frameHeader, 6, 0, ByteArray.empty⟩) := by
  have hcollect : collect ⟨frameHeader, 5, 0, ByteArray.empty⟩ frameFront 6 =
      (frameHeader, ⟨frameHeader, 6, 0, ByteArray.empty⟩) := rfl
  have hsize : frameHeader.size = 6 := rfl
  simp only [step, headerSize_frameFront, bind, Except.bind, hcollect, headerSize_frameHeader, hsize,
    readHeader_frameHeader]
  rfl

theorem feed_frameHeader :
    ({} : Decoder).feed (Bytes.pack Encoder.header) 0 = .ok (behindHeader, 6, ByteArray.empty) := by
  have hnothing : step true behindHeader ⟨frameHeader, 6, 0, ByteArray.empty⟩ =
      .ok (false, behindHeader, ⟨frameHeader, 6, 0, ByteArray.empty⟩) :=
    step_blockHeader_nothing rfl (left_used Encoder.header 0 ByteArray.empty)
  have hrun : ∀ fuel, run true (fuel + 3) {} ⟨frameHeader, 0, 0, ByteArray.empty⟩ =
      .ok (behindHeader, ⟨frameHeader, 6, 0, ByteArray.empty⟩) := by
    intro fuel
    rw [run_succ (flush_of_pending_eq_zero rfl) rfl step_front, if_pos rfl,
      run_succ (flush_of_pending_eq_zero rfl) rfl step_frameHeader, if_pos rfl,
      run_succ (flush_of_pending_eq_zero rfl) rfl hnothing, if_neg (by decide)]
  have hfresh : ByteArray.empty.isEmpty = true := rfl
  have hsize : 3 * frameHeader.size + 8 = 3 * frameHeader.size + 5 + 3 := rfl
  rw [← frameHeader, feed]
  simp only [hfresh, hsize, hrun]
  rfl

theorem betweenBlocks_behindHeader : BetweenBlocks behindHeader :=
  ⟨⟨rfl, rfl, rfl⟩, rfl, rfl⟩

end Decoder

/-- A decoder hands out what was encoded. -/
theorem decodes_encode (contents : Bytes) : Decodes (encode contents) contents := by
  obtain ⟨full, left, hcut, hencode⟩ := Encoder.encode_eq contents
  have hblocks := Decoder.betweenBlocks_behindHeader.feeds_blocks hcut.size hcut.bound
  rw [hencode, hcut.join]
  exact ⟨_, by simpa using Feeds.of_whole Decoder.feed_frameHeader hblocks, rfl⟩

end Depot.Zstd
