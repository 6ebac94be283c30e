import Depot.Proofs.Zstd.Progress
import Depot.Proofs.Zstd.Unique

/-!
# Every way to decode what was encoded

A frame of stored blocks is never refused, and it is never too short: however it is cut into pieces, and however much
is asked for at a time, it comes to its contents.

## Main results

* `Decoder.Decoding.feed` — no piece of such a frame is refused.
* `chunkingIndependent_encode` — what was encoded comes to one end only.
-/

namespace Depot.Zstd

namespace Decoder

variable {d : Decoder} {f : Feed} {fresh isLast : Bool} {wire tail plain given contents blocks : Bytes}
  {held : ByteArray}

/-! ## No step fails -/

theorem step_header_ok (hphase : d.phase = .header held) (hheld : held.size < 6)
    (hwire : held.toList ++ (f.rest ++ tail) = Encoder.header ++ blocks) : ∃ x, step fresh d f = .ok x := by
  have hneed := headerSize_eq_of_begun hwire (Nat.le_of_lt hheld)
  generalize (if held.size < 5 then 5 else 6) = need at hneed
  simp only [step, hphase, hneed, bind, Except.bind]
  generalize hcollect : collect f held need = x
  obtain ⟨held', f'⟩ := x
  have hcollected := collected hcollect
  have hjoin := (hcollected.join_tail tail).trans hwire
  have hmost := hcollected.size_le_six hheld hwire hneed
  obtain ⟨size, hmore, hfull⟩ : ∃ size, headerSize held' = .ok size ∧ (¬ held'.size < size → held'.size = 6) :=
    ⟨_, headerSize_eq_of_begun hjoin hmost, by split <;> omega⟩
  dsimp only
  rw [hmore]
  dsimp only
  split
  · exact ⟨_, rfl⟩
  · split
    · exact ⟨_, rfl⟩
    · rename_i hall
      obtain ⟨rfl, -⟩ := eq_frameHeader hjoin (hfull hall)
      rw [readHeader_frameHeader]
      have hnone : (if fresh = true then wholeFrame? f' frameHeader.size (.frame blockMax none 0 false) else none) =
          none := by
        split <;> rfl
      dsimp only
      rw [hnone]
      exact ⟨_, rfl⟩

/-- The header of a frame of which nothing has arrived. -/
theorem step_header_nothing (hphase : d.phase = .header ByteArray.empty) (hf : f.left = 0) :
    ∃ x, step fresh d f = .ok x := by
  simp only [step, hphase, collect, take_nothing hf]
  exact ⟨_, rfl⟩

theorem step_blockHeader_ok (hframed : Framed d) (hphase : d.phase = .blockHeader held) (hheld : held.size < 3)
    (hblocks : Blocks false (held.toList ++ (f.rest ++ tail)) plain) : ∃ x, step fresh d f = .ok x := by
  simp only [step, hphase]
  generalize hcollect : collect f held 3 = x
  obtain ⟨held', f'⟩ := x
  have hcollected := collected hcollect
  have hsize := hcollected.size_eq
  rw [← hcollected.join_tail tail] at hblocks
  generalize hall : held'.toList ++ (f'.rest ++ tail) = blocks at hblocks
  dsimp only
  split
  · exact ⟨_, rfl⟩
  · cases hblocks with
    | @block isLast c blocks plain hc next =>
      rw [(readBlockHeader_begun hall (by omega) hc).1]
      simp only [bind, Except.bind]
      rw [hframed.afterBlockHeader_stored isLast hc]
      exact ⟨_, rfl⟩

theorem step_raw_ok {left : Nat} (hframed : Framed d) (hphase : d.phase = .raw left isLast) :
    ∃ x, step fresh d f = .ok x := by
  simp only [step, hphase]
  generalize f.take left = x
  obtain ⟨bytes, f'⟩ := x
  have hmore : Framed { d with phase := .raw left isLast, history := d.history ++ bytes } :=
    ⟨hframed.limit, hframed.content, hframed.checksum⟩
  dsimp only
  split
  · exact ⟨_, rfl⟩
  · simp only [bind, Except.bind]
    split
    · rw [hmore.afterBlock_eq isLast]
      exact ⟨_, rfl⟩
    · exact ⟨_, rfl⟩

theorem Decoding.step_ok (h : Decoding contents d (f.rest ++ tail) given) (fresh : Bool) :
    ∃ x, Decoder.step fresh d f = .ok x := by
  obtain ⟨-, plain, -, hexpects⟩ := h
  generalize hwire : f.rest ++ tail = wire at hexpects
  cases hexpects with
  | header hphase _ hheld hall _ => exact step_header_ok hphase hheld (hwire ▸ hall)
  | blockHeader hframed hphase _ hheld hall hblocks =>
    subst hall
    exact step_blockHeader_ok hframed hphase hheld (hwire ▸ hblocks)
  | raw hframed hphase _ _ => exact step_raw_ok hframed hphase
  | ended hphase _ => exact ⟨_, step_ended hphase⟩
  | atEnd hphase _ =>
    obtain ⟨hrest, -⟩ := List.append_eq_nil_iff.mp hwire
    exact step_header_nothing hphase (by rw [← Feed.length_rest, hrest, List.length_nil])

theorem Decoding.run_ok {fuel : Nat} (h : Decoding contents d (f.rest ++ tail) (given ++ f.output.toList)) :
    ∃ x, run fresh fuel d f = .ok x := by
  induction fuel generalizing d f with
  | zero => exact ⟨_, rfl⟩
  | succ fuel ih =>
    have hflushed := (keeps_decoding contents).flushed h
    rw [run]
    generalize d.flush f = x at hflushed
    obtain ⟨d₁, f₁⟩ := x
    dsimp only at hflushed ⊢
    split
    · exact ⟨_, rfl⟩
    · rename_i hpending
      obtain ⟨⟨more, d₂, f₂⟩, hstep⟩ := hflushed.step_ok fresh
      obtain ⟨hnext, -, houtput⟩ := hflushed.step (Nat.eq_zero_of_not_pos hpending) hstep
      rw [← houtput] at hnext
      rw [hstep]
      cases more with
      | true => exact ih hnext
      | false => exact ⟨_, rfl⟩

/-- No piece of a frame of stored blocks is refused. -/
theorem Decoding.feed_ok {input : Bytes} (h : Decoding contents d (input ++ tail) given) (room : Nat) :
    ∃ d' taken out, d.feed (Bytes.pack input) room = .ok (d', taken, out) := by
  have hstart : Decoding contents d ((⟨Bytes.pack input, 0, room, ByteArray.empty⟩ : Feed).rest ++ tail)
      (given ++ ByteArray.empty.toList) := by
    rwa [Feed.rest, Bytes.toList_pack, List.drop_zero, Bytes.toList_empty, List.append_nil]
  rw [Decoder.feed]
  obtain ⟨⟨d', f'⟩, hrun⟩ := hstart.run_ok
  rw [hrun]
  exact ⟨_, _, _, rfl⟩

/-! ## No end falls short -/

/-- A decoder that lacks bytes of a frame has some of the frame to come, or stands behind its end. -/
theorem Decoding.mayEnd_of_waits (h : Decoding contents d [] given) (hpending : d.pending = 0)
    (hwaits : d.phase.Waits) : d.mayEnd = true := by
  obtain ⟨-, plain, -, hexpects⟩ := h
  generalize hwire : ([] : Bytes) = wire at hexpects
  -- everywhere but behind its end, what the frame has still to bring is longer than nothing
  cases hexpects with
  | header _ _ hheld hall _ =>
    subst hwire
    have hlength := congrArg List.length hall
    rw [List.append_nil, List.length_append, Bytes.length_toList, show Encoder.header.length = 6 from rfl] at hlength
    omega
  | @blockHeader held _ _ _ _ _ _ hheld hall hblocks =>
    subst hwire
    rw [List.append_nil] at hall
    subst hall
    generalize hbytes : held.toList = blocks at hblocks
    cases hblocks with
    | @block isLast c blocks plain hc next =>
      have hlength := congrArg List.length hbytes
      rw [storedBlock_eq, List.length_append, List.length_append, Bytes.length_toList,
        show (storedHeader isLast c.length).length = 3 from rfl] at hlength
      omega
  | raw _ hphase _ _ =>
    obtain ⟨rfl, -⟩ := List.append_eq_nil_iff.mp hwire.symm
    rw [hphase] at hwaits
    exact absurd hwaits (Nat.lt_irrefl 0)
  | ended hphase _ =>
    rw [hphase] at hwaits
    exact hwaits.elim
  | atEnd _ hfinished => simp [mayEnd, hfinished, hpending]

end Decoder

theorem ends_of_decoding {d : Decoder} {contents wire given : Bytes} {r : Option Bytes} (h : Ends d wire r)
    (hd : Decoder.Decoding contents d wire given) (hrested : d.Rested) : r.map (given ++ ·) = some contents := by
  induction h generalizing given with
  | ended hend => rw [Option.map_some, List.append_nil, hd.eq_of_mayEnd hend]
  | short hpending hend => cases hend.symm.trans (hd.mayEnd_of_waits hpending (hrested.waits hpending))
  | refused hfeed =>
    obtain ⟨_, _, _, hok⟩ := hd.feed_ok _
    cases hfeed.symm.trans hok
  | feed hfeed _ ih =>
    have hnext := ih ((Decoder.keeps_decoding contents).feed hd hfeed) (hrested.feed hfeed).rested
    rw [← hnext, Option.map_map]
    simp [Function.comp_def]

/-- What was encoded comes to its contents, and to no other end. -/
theorem ends_encode_iff {contents : Bytes} {r : Option Bytes} : Ends {} (encode contents) r ↔ r = some contents := by
  constructor
  · intro h
    simpa using ends_of_decoding h (Decoder.decoding_encode contents) Decoder.rested_start
  · rintro rfl
    exact ends_some_iff.mpr (decodes_encode contents)

/-- What was encoded comes to one end only. -/
theorem chunkingIndependent_encode (contents : Bytes) : ChunkingIndependent (encode contents) :=
  fun _ _ h h' => (ends_encode_iff.mp h).trans (ends_encode_iff.mp h').symm

end Depot.Zstd
