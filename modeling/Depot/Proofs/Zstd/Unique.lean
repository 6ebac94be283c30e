import Depot.Proofs.Zstd.Steps

/-!
# Decoding to nothing else

However a frame of stored blocks is cut into pieces, and however much is asked for at a time, a decoder that
takes it to its end has handed out the contents and nothing else. What is too short for a frame is not taken to
an end at all.

## Main results

* `Feeds.preserves` — what steps and handing out keep, feeding keeps.
* `decodes_encode_iff` — what was encoded decodes to its contents only.
* `not_decodes_of_length_lt` — a few bytes are no frame.
-/

namespace Depot

namespace Zstd

namespace Decoder

/-- The contents that wait to be handed out. -/
def waiting (d : Decoder) : Bytes := d.history.toList.drop d.given

theorem length_waiting (d : Decoder) : d.waiting.length = d.pending := by
  rw [waiting, List.length_drop, Bytes.length_toList, pending]

/-! ## What feeding keeps -/

/-- Whether steps and handing out keep a relation between a decoder, the payload that is still to come, and what
was handed out. -/
structure Keeps (I : Decoder → Bytes → Bytes → Prop) : Prop where
  flush : ∀ {d wire given} (n), I d wire given → n ≤ d.pending →
    I { d with given := d.given + n } wire (given ++ d.waiting.take n)
  step : ∀ {fresh d f tail given more d' f'}, I d (f.rest ++ tail) given → d.pending = 0 →
    step fresh d f = .ok (more, d', f') → I d' (f'.rest ++ tail) given ∧ f'.input = f.input ∧ f'.output = f.output

variable {I : Decoder → Bytes → Bytes → Prop} {d d' : Decoder} {wire plain given : Bytes}

theorem Keeps.flushed (hI : Keeps I) {f : Feed} {tail : Bytes} (hd : I d (f.rest ++ tail) (given ++ f.output.toList)) :
    I (d.flush f).1 ((d.flush f).2.rest ++ tail) (given ++ (d.flush f).2.output.toList) := by
  have hflush := hI.flush (min d.pending f.room) hd (Nat.min_le_left ..)
  rw [waiting, ← Bytes.toList_extract, List.append_assoc, ← Bytes.toList_append] at hflush
  exact hflush

theorem Keeps.run (hI : Keeps I) {fresh : Bool} {fuel : Nat} {f f' : Feed} {tail : Bytes}
    (hd : I d (f.rest ++ tail) (given ++ f.output.toList)) (h : run fresh fuel d f = .ok (d', f')) :
    I d' (f'.rest ++ tail) (given ++ f'.output.toList) ∧ f'.input = f.input := by
  induction fuel generalizing d f with
  | zero =>
    obtain ⟨rfl, rfl⟩ := Prod.mk.inj (Except.ok.inj h)
    exact ⟨hd, rfl⟩
  | succ fuel ih =>
    have hflushed := hI.flushed hd
    have hinput : (d.flush f).2.input = f.input := rfl
    rw [Decoder.run] at h
    generalize d.flush f = x at h hflushed hinput
    obtain ⟨d₁, f₁⟩ := x
    dsimp only at h hflushed hinput
    split at h
    · obtain ⟨rfl, rfl⟩ := Prod.mk.inj (Except.ok.inj h)
      exact ⟨hflushed, hinput⟩
    · rename_i hpending
      cases hstep : Decoder.step fresh d₁ f₁ with
      | error e =>
        rw [hstep] at h
        cases h
      | ok y =>
        obtain ⟨more, d₂, f₂⟩ := y
        obtain ⟨hnext, hsame, houtput⟩ := hI.step hflushed (Nat.eq_zero_of_not_pos hpending) hstep
        rw [hstep] at h
        rw [← houtput] at hnext
        cases more with
        | true =>
          obtain ⟨hlast, hlastInput⟩ := ih hnext h
          exact ⟨hlast, hlastInput.trans (hsame.trans hinput)⟩
        | false =>
          obtain ⟨rfl, rfl⟩ := Prod.mk.inj (Except.ok.inj h)
          exact ⟨hnext, hsame.trans hinput⟩

theorem Keeps.feed (hI : Keeps I) {input tail : Bytes} {room taken : Nat} {out : ByteArray}
    (hd : I d (input ++ tail) given) (h : d.feed (Bytes.pack input) room = .ok (d', taken, out)) :
    I d' (input.drop taken ++ tail) (given ++ out.toList) := by
  rw [Decoder.feed] at h
  generalize hrun :
    Decoder.run _ (3 * (Bytes.pack input).size + 8) d ⟨Bytes.pack input, 0, room, ByteArray.empty⟩ = x at h
  cases x with
  | error e => cases h
  | ok y =>
    obtain ⟨d₁, f₁⟩ := y
    obtain ⟨rfl, hfeed⟩ := Prod.mk.inj (Except.ok.inj h)
    obtain ⟨rfl, rfl⟩ := Prod.mk.inj hfeed
    have hstart : I d ((⟨Bytes.pack input, 0, room, ByteArray.empty⟩ : Feed).rest ++ tail)
        (given ++ ByteArray.empty.toList) := by
      rwa [Feed.rest, Bytes.toList_pack, List.drop_zero, Bytes.toList_empty, List.append_nil]
    obtain ⟨hend, hinput⟩ := hI.run hstart hrun
    rwa [Feed.rest, hinput, Bytes.toList_pack] at hend

end Decoder

/-- What steps and handing out keep, feeding keeps. -/
theorem Feeds.preserves {I : Decoder → Bytes → Bytes → Prop} {d d' : Decoder} {wire plain given : Bytes}
    (hI : Decoder.Keeps I) (h : Feeds d wire plain d') (hd : I d wire given) : I d' [] (given ++ plain) := by
  induction h generalizing given with
  | refl d => rwa [List.append_nil]
  | feed hfeed _ ih =>
    rw [← List.append_assoc]
    exact ih (hI.feed hd hfeed)

namespace Decoder

/-! ## Payloads that are too short -/

/-- A decoder that waits for the header of a first frame and does not get it. -/
def Starving (d : Decoder) (wire _given : Bytes) : Prop :=
  ∃ held, d.phase = .header held ∧ d.finished = false ∧ held.size + wire.length < 5

theorem keeps_starving : Keeps Starving where
  flush _ h _ := h
  step := by
    rintro fresh d f tail given more d' f' ⟨held, hphase, hfinished, hshort⟩ - hstep
    rw [List.length_append] at hshort
    have hneed {need : Nat} (h : headerSize held = .ok need) : need = 5 := headerSize_of_short (by omega) h
    have hless {need : Nat} {held' : ByteArray} {f₁ : Feed} (h : Collected f held need held' f₁) :
        held'.size + (f₁.rest ++ tail).length < 5 := by
      have hjoin := congrArg List.length h.join
      simp only [List.length_append, Bytes.length_toList] at hjoin ⊢
      omega
    cases headerStep_of_step hphase hstep with
    | starved _ hheld _ _ _ hd =>
      subst hd
      exact ⟨⟨_, rfl, by simp [hfinished], hless hheld⟩, hheld.input, hheld.output⟩
    | partly h hheld _ henough | whole h hheld _ henough | begun h hheld _ henough =>
      have hbound := hless hheld
      obtain rfl := hneed h
      omega

end Decoder

/-- A few bytes are no frame. -/
theorem not_decodes_of_length_lt {wire plain : Bytes} (h : wire.length < 5) : ¬ Decodes wire plain := by
  rintro ⟨d, hfeeds, hend⟩
  have hstart : Decoder.Starving {} wire [] := ⟨ByteArray.empty, rfl, rfl, by simpa using h⟩
  obtain ⟨_, _, hfinished, -⟩ := hfeeds.preserves Decoder.keeps_starving hstart
  simp [Decoder.mayEnd, hfinished] at hend

/-! ## Frames of stored blocks -/

/-- Stored blocks and their contents, from behind a block on; the flag says whether that was the last one. -/
inductive Blocks : Bool → Bytes → Bytes → Prop
  | nil : Blocks true [] []
  | block {isLast : Bool} {c wire plain : Bytes} (hc : c.length ≤ blockMax) (next : Blocks isLast wire plain) :
      Blocks false (Encoder.storedBlock isLast c ++ wire) (c ++ plain)

theorem blocks_full {full : List Bytes} {left : Bytes} (hfull : ∀ c ∈ full, c.length = blockMax)
    (hleft : left.length ≤ blockMax) :
    Blocks false (fullFrames full ++ Encoder.storedBlock true left) (full.flatten ++ left) := by
  induction full with
  | nil => simpa using Blocks.block hleft .nil
  | cons c rest ih =>
    have hrest := ih fun x hx => hfull x (List.mem_cons_of_mem _ hx)
    have hsize := Nat.le_of_eq (hfull c (List.mem_cons_self ..))
    simpa [fullFrames] using Blocks.block hsize hrest

theorem blocks_encode (contents : Bytes) :
    ∃ wire, encode contents = Encoder.header ++ wire ∧ Blocks false wire contents := by
  obtain ⟨full, left, hcut, hencode⟩ := Encoder.encode_eq contents
  exact ⟨_, hencode, hcut.join ▸ blocks_full hcut.size hcut.bound⟩

namespace Decoder

theorem eq_pack {b : ByteArray} {x : Bytes} (h : b.toList = x) : b = Bytes.pack x := by
  rw [← h, Bytes.toList_eq, Bytes.pack]

theorem headerSize_take {k : Nat} (hk : k ≤ 6) :
    headerSize (Bytes.pack (Encoder.header.take k)) = .ok (if k < 5 then 5 else 6) := by
  match k with
  | 0 | 1 | 2 | 3 | 4 | 5 | 6 => rfl
  | k + 7 => omega

/-- The beginning of the header of a frame tells its size. -/
theorem headerSize_eq_of_begun {held : ByteArray} {wire blocks : Bytes}
    (hwire : held.toList ++ wire = Encoder.header ++ blocks) (hheld : held.size ≤ 6) :
    headerSize held = .ok (if held.size < 5 then 5 else 6) := by
  have htake : held.toList = Encoder.header.take held.size := by
    have hfront := congrArg (List.take held.size) hwire
    rwa [List.take_left' (Bytes.length_toList held), List.take_append_of_le_length hheld] at hfront
  exact (congrArg headerSize (eq_pack htake)).trans (headerSize_take hheld)

theorem headerSize_begun {held : ByteArray} {need : Nat} {wire blocks : Bytes}
    (hwire : held.toList ++ wire = Encoder.header ++ blocks) (hheld : held.size ≤ 6) (h : headerSize held = .ok need) :
    need = if held.size < 5 then 5 else 6 :=
  Except.ok.inj (h.symm.trans (headerSize_eq_of_begun hwire hheld))

/-- Six bytes of a header that has begun are all of it. -/
theorem eq_frameHeader {held : ByteArray} {wire blocks : Bytes}
    (hwire : held.toList ++ wire = Encoder.header ++ blocks) (hheld : held.size = 6) :
    held = frameHeader ∧ wire = blocks := by
  have hlength : held.toList.length = Encoder.header.length := (Bytes.length_toList held).trans hheld
  obtain ⟨hbytes, hrest⟩ := List.append_inj hwire hlength
  exact ⟨eq_pack hbytes, hrest⟩

/-- Three bytes of a stored block that has begun are its header. -/
theorem readBlockHeader_begun {held : ByteArray} {isLast : Bool} {c wire blocks : Bytes}
    (hwire : held.toList ++ wire = Encoder.storedBlock isLast c ++ blocks) (hheld : held.size = 3)
    (hc : c.length ≤ blockMax) : readBlockHeader held 0 = .ok ⟨isLast, .raw, c.length⟩ ∧ wire = c ++ blocks := by
  rw [storedBlock_eq, List.append_assoc] at hwire
  have hlength : held.toList.length = (storedHeader isLast c.length).length := (Bytes.length_toList held).trans hheld
  obtain ⟨hbytes, hrest⟩ := List.append_inj hwire hlength
  rw [eq_pack hbytes]
  exact ⟨readBlockHeader_stored isLast hc, hrest⟩

/-- What a decoder in a frame of stored blocks expects: the payload to come, and the contents that it stands
for. -/
inductive Expects (d : Decoder) : Bytes → Bytes → Prop
  | header {held : ByteArray} {wire blocks plain : Bytes} (hphase : d.phase = .header held)
      (hfinished : d.finished = false) (hheld : held.size < 6) (hwire : held.toList ++ wire = Encoder.header ++ blocks)
      (hblocks : Blocks false blocks plain) : Expects d wire plain
  | blockHeader {held : ByteArray} {wire blocks plain : Bytes} (hframed : Framed d)
      (hphase : d.phase = .blockHeader held) (hfinished : d.finished = false) (hheld : held.size < 3)
      (hwire : held.toList ++ wire = blocks) (hblocks : Blocks false blocks plain) : Expects d wire plain
  | raw {isLast : Bool} {c blocks plain : Bytes} (hframed : Framed d) (hphase : d.phase = .raw c.length isLast)
      (hfinished : d.finished = false) (hblocks : Blocks isLast blocks plain) : Expects d (c ++ blocks) (c ++ plain)
  | ended (hphase : d.phase = .ended) (hfinished : d.finished = false) : Expects d [] []
  | atEnd (hphase : d.phase = .header ByteArray.empty) (hfinished : d.finished = true) : Expects d [] []

variable {d d' : Decoder} {f f' : Feed} {fresh more isLast : Bool} {wire tail plain given contents : Bytes}

theorem expects_nextPhase (hframed : Framed d) (hphase : d.phase = nextPhase isLast) (hfinished : d.finished = false)
    (h : Blocks isLast wire plain) : Expects d wire plain := by
  cases h with
  | nil => exact .ended hphase hfinished
  | block hc next => exact .blockHeader hframed hphase hfinished (by decide) (by simp) (.block hc next)

/-- A decoder that has handed out `given` of some contents, and expects the rest of them. -/
structure Decoding (contents : Bytes) (d : Decoder) (wire given : Bytes) : Prop where
  bound : d.given ≤ d.history.size
  ahead : ∃ plain, contents = given ++ (d.waiting ++ plain) ∧ Expects d wire plain

theorem Decoding.flush (h : Decoding contents d wire given) {n : Nat} (hn : n ≤ d.pending) :
    Decoding contents { d with given := d.given + n } wire (given ++ d.waiting.take n) := by
  obtain ⟨hbound, plain, hcontents, hexpects⟩ := h
  rw [pending] at hn
  have hwaiting : ({ d with given := d.given + n } : Decoder).waiting = d.waiting.drop n :=
    List.drop_drop.symm
  refine ⟨by dsimp only; omega, plain, ?_, ?_⟩
  · rw [hwaiting, List.append_assoc, ← List.append_assoc (d.waiting.take n), List.take_append_drop, hcontents]
  · cases hexpects with
    | header hphase hfinished hheld hwire hblocks => exact .header hphase hfinished hheld hwire hblocks
    | blockHeader hframed hphase hfinished hheld hwire hblocks =>
      exact .blockHeader ⟨hframed.limit, hframed.content, hframed.checksum⟩ hphase hfinished hheld hwire hblocks
    | raw hframed hphase hfinished hblocks =>
      exact .raw ⟨hframed.limit, hframed.content, hframed.checksum⟩ hphase hfinished hblocks
    | ended hphase hfinished => exact .ended hphase hfinished
    | atEnd hphase hfinished => exact .atEnd hphase hfinished

/-- A header that has begun is never collected beyond its end. -/
theorem Collected.size_le_six {held held' : ByteArray} {need : Nat} {blocks : Bytes}
    (h : Collected f held need held' f') (hheld : held.size < 6)
    (hwire : held.toList ++ (f.rest ++ tail) = Encoder.header ++ blocks) (hneed : headerSize held = .ok need) :
    held'.size ≤ 6 := by
  have hbound := headerSize_begun hwire (Nat.le_of_lt hheld) hneed
  have hcount := h.size_eq
  split at hbound <;> omega

/-- A header that is there whole is the one that was written. -/
theorem Collected.header_eq {held held' : ByteArray} {need size : Nat} {header : Header} {blocks : Bytes}
    (h : Collected f held need held' f') (hheld : held.size < 6)
    (hwire : held.toList ++ (f.rest ++ tail) = Encoder.header ++ blocks) (hneed : headerSize held = .ok need)
    (hsize : headerSize held' = .ok size) (hall : size ≤ held'.size) (hheader : readHeader held' = .ok header) :
    header = .frame blockMax none 0 false ∧ f'.rest ++ tail = blocks := by
  have hwire' := (h.join_tail tail).trans hwire
  have hsix := h.size_le_six hheld hwire hneed
  have hmore := headerSize_begun hwire' hsix hsize
  obtain ⟨rfl, hrest⟩ := eq_frameHeader hwire' (by split at hmore <;> omega)
  rw [readHeader_frameHeader] at hheader
  exact ⟨(Except.ok.inj hheader).symm, hrest⟩

/-- A step in the header of the frame. -/
theorem expects_headerStep {held : ByteArray} {blocks : Bytes} (hfinished : d.finished = false) (hheld : held.size < 6)
    (hwire : held.toList ++ (f.rest ++ tail) = Encoder.header ++ blocks) (hblocks : Blocks false blocks plain)
    (h : HeaderStep fresh d f held more d' f') :
    Expects d' (f'.rest ++ tail) plain ∧ (d'.history = d.history ∧ d'.given = d.given ∨
      d'.history = ByteArray.empty ∧ d'.given = 0) ∧ f'.input = f.input ∧ f'.output = f.output := by
  cases h with
  | starved h hjoined hsize hless _ hd =>
    have hbound := headerSize_begun hwire (Nat.le_of_lt hheld) h
    have hwire' := (hjoined.join_tail tail).trans hwire
    subst hd
    refine ⟨.header rfl (by simp [hfinished]) ?_ hwire' hblocks, .inl ⟨rfl, rfl⟩, hjoined.input, hjoined.output⟩
    split at hbound <;> omega
  | partly h hjoined hsize henough hless _ hd =>
    have hwire' := (hjoined.join_tail tail).trans hwire
    have hmore := headerSize_begun hwire' (hjoined.size_le_six hheld hwire h) hsize
    subst hd
    refine ⟨.header rfl rfl ?_ hwire' hblocks, .inl ⟨rfl, rfl⟩, hjoined.input, hjoined.output⟩
    split at hmore <;> omega
  | whole h hjoined hsize henough hall hheader hframe =>
    obtain ⟨rfl, -⟩ := hjoined.header_eq hheld hwire h hsize hall hheader
    cases hframe
  | begun h hjoined hsize henough hall hheader _ hafter =>
    obtain ⟨rfl, hrest⟩ := hjoined.header_eq hheld hwire h hsize hall hheader
    obtain rfl := Except.ok.inj hafter
    refine ⟨.blockHeader ⟨rfl, rfl, rfl⟩ rfl rfl (by decide) ?_ hblocks, .inr ⟨rfl, rfl⟩,
      hjoined.input, hjoined.output⟩
    rw [Bytes.toList_empty, List.nil_append, hrest]

/-- A step in the header of a block. -/
theorem expects_blockHeaderStep {held : ByteArray} (hframed : Framed d) (hfinished : d.finished = false)
    (hheld : held.size < 3) (hblocks : Blocks false (held.toList ++ (f.rest ++ tail)) plain)
    (h : BlockHeaderStep d f held more d' f') :
    Expects d' (f'.rest ++ tail) plain ∧ (d'.history = d.history ∧ d'.given = d.given) ∧ f'.input = f.input ∧
      f'.output = f.output := by
  cases h with
  | starved hjoined hless _ hd =>
    subst hd
    exact ⟨.blockHeader ⟨hframed.limit, hframed.content, hframed.checksum⟩ rfl hfinished hless
      (hjoined.join_tail tail) hblocks, ⟨rfl, rfl⟩, hjoined.input, hjoined.output⟩
  | @whole held' b hjoined henough hheader _ hd =>
    have hcount := hjoined.size_eq
    rw [← hjoined.join_tail tail] at hblocks
    generalize hall : held'.toList ++ (f'.rest ++ tail) = blocks at hblocks
    cases hblocks with
    | @block isLast c blocks plain hc next =>
      obtain ⟨hstored, hrest⟩ := readBlockHeader_begun hall (by omega) hc
      obtain rfl := Except.ok.inj (hheader.symm.trans hstored)
      rw [hframed.afterBlockHeader_stored isLast hc] at hd
      obtain rfl := Except.ok.inj hd
      refine ⟨?_, ⟨rfl, rfl⟩, hjoined.input, hjoined.output⟩
      rw [hrest]
      by_cases hempty : c.length = 0
      · obtain rfl := List.eq_nil_of_length_eq_zero hempty
        exact expects_nextPhase ⟨hframed.limit, hframed.content, hframed.checksum⟩ rfl hfinished next
      · exact .raw ⟨hframed.limit, hframed.content, hframed.checksum⟩ (if_neg hempty) hfinished next

/-- Bytes of the contents of a block are taken. -/
theorem expects_taken {c bytes blocks : Bytes} {b : ByteArray} (hframed : Framed d)
    (hphase : d.phase = .raw (bytes ++ c).length isLast) (hfinished : d.finished = false)
    (hblocks : Blocks isLast blocks plain) (hb : b.toList = bytes)
    (h : RawStep d (bytes ++ c).length isLast b more d') :
    Expects d' (c ++ blocks) (c ++ plain) ∧ d'.given = d.given ∧ d'.history.toList = d.history.toList ++ bytes := by
  have hsize : b.size = bytes.length := by rw [← hb, Bytes.length_toList]
  cases h with
  | nothing hbytes _ hd =>
    subst hd
    obtain rfl : bytes = [] := by
      refine List.eq_nil_of_length_eq_zero ?_
      rw [← hsize]
      simpa [ByteArray.isEmpty] using hbytes
    exact ⟨.raw hframed hphase hfinished hblocks, rfl, (List.append_nil _).symm⟩
  | whole hbytes _ _ hd =>
    obtain rfl : c = [] := by
      refine List.eq_nil_of_length_eq_zero ?_
      rw [List.length_append] at hbytes
      omega
    have hmore : Framed { d with history := d.history ++ b } := ⟨hframed.limit, hframed.content, hframed.checksum⟩
    rw [hmore.afterBlock_eq isLast] at hd
    obtain rfl := Except.ok.inj hd
    refine ⟨expects_nextPhase ⟨hframed.limit, hframed.content, hframed.checksum⟩ rfl hfinished hblocks, rfl, ?_⟩
    rw [Bytes.toList_append, hb]
  | some hbytes _ _ hd =>
    subst hd
    refine ⟨.raw ⟨hframed.limit, hframed.content, hframed.checksum⟩ ?_ hfinished hblocks, rfl, ?_⟩
    · show Phase.raw _ isLast = _
      rw [hsize, List.length_append, Nat.add_sub_cancel_left]
    · rw [Bytes.toList_append, hb]

/-- A step in the contents of a block. -/
theorem expects_rawStep {c blocks : Bytes} (hframed : Framed d) (hphase : d.phase = .raw c.length isLast)
    (hfinished : d.finished = false) (hblocks : Blocks isLast blocks plain) (hwire : f.rest ++ tail = c ++ blocks)
    (h : RawStep d c.length isLast (f.take c.length).1 more d') :
    ∃ bytes rest, c ++ plain = bytes ++ rest ∧ Expects d' ((f.take c.length).2.rest ++ tail) rest ∧
      d'.given = d.given ∧ d'.history.toList = d.history.toList ++ bytes := by
  have hbytes := f.toList_take c.length
  have hlength : (f.rest.take c.length).length ≤ c.length := List.length_take_le ..
  have htaken : f.rest.take c.length ++ ((f.take c.length).2.rest ++ tail) = c ++ blocks := by
    rw [Feed.rest_take, ← List.append_assoc, List.take_append_drop, hwire]
  generalize f.rest.take c.length = bytes at hbytes hlength htaken
  generalize f.take c.length = taken at h hbytes htaken ⊢
  -- what is taken is the beginning of the contents of the block
  obtain ⟨c, rfl⟩ : bytes <+: c :=
    List.prefix_of_prefix_length_le (htaken ▸ List.prefix_append ..) (List.prefix_append ..) hlength
  rw [List.append_assoc, List.append_cancel_left_eq] at htaken
  obtain ⟨hnext, hsame, hhistory⟩ := expects_taken hframed hphase hfinished hblocks hbytes h
  exact ⟨bytes, c ++ plain, List.append_assoc .., htaken.symm ▸ hnext, hsame, hhistory⟩

/-- A step at the end of the payload, where there is nothing to take. -/
theorem expects_endStep (hfinished : d.finished = true) (hrest : f.rest = [])
    (h : HeaderStep fresh d f ByteArray.empty more d' f') :
    Expects d' f'.rest [] ∧ (d'.history = d.history ∧ d'.given = d.given) ∧ f'.input = f.input ∧
      f'.output = f.output := by
  have hnothing {need : Nat} {held' : ByteArray} {f₁ : Feed} (h : Collected f ByteArray.empty need held' f₁) :
      held'.size = 0 := by
    rw [h.size_eq, hrest, List.length_nil, Nat.min_zero, ByteArray.size_empty]
  cases h with
  | @starved need size held' hneed hjoined _ _ _ hd =>
    have hheld : held'.toList = [] := by simp [hjoined.bytes, hrest]
    obtain rfl : held' = ByteArray.empty := eq_pack hheld
    subst hd
    refine ⟨?_, ⟨rfl, rfl⟩, hjoined.input, hjoined.output⟩
    rw [hjoined.rest, hrest, List.drop_nil]
    exact .atEnd rfl (by simp [hfinished]; rfl)
  | partly hneed hjoined _ henough | whole hneed hjoined _ henough | begun hneed hjoined _ henough =>
    obtain rfl : 5 = _ := Except.ok.inj hneed
    have hcount := hnothing hjoined
    omega

theorem waiting_of_pending (h : d.pending = 0) : d.waiting = [] :=
  List.eq_nil_of_length_eq_zero (d.length_waiting.trans h)

theorem Decoding.step (h : Decoding contents d (f.rest ++ tail) given) (hpending : d.pending = 0)
    (hstep : step fresh d f = .ok (more, d', f')) :
    Decoding contents d' (f'.rest ++ tail) given ∧ f'.input = f.input ∧ f'.output = f.output := by
  obtain ⟨hbound, plain, hcontents, hexpects⟩ := h
  have hgiven : d.given = d.history.size := by rw [pending] at hpending; omega
  rw [waiting_of_pending hpending, List.nil_append] at hcontents
  -- a step that leaves the history, or begins a new one, leaves nothing to hand out
  have hquiet (hhistory : d'.history = d.history ∧ d'.given = d.given ∨ d'.history = ByteArray.empty ∧ d'.given = 0)
      (hexpects : Expects d' (f'.rest ++ tail) plain) : Decoding contents d' (f'.rest ++ tail) given := by
    have hsame : d'.given = d'.history.size := by
      rcases hhistory with ⟨h, h'⟩ | ⟨h, h'⟩
      · rw [h, h', hgiven]
      · rw [h, h']
        rfl
    refine ⟨Nat.le_of_eq hsame, plain, ?_, hexpects⟩
    rw [waiting_of_pending (by rw [pending, hsame, Nat.sub_self]), List.nil_append, hcontents]
  generalize hwire : f.rest ++ tail = wire at hexpects
  cases hexpects with
  | header hphase hfinished hheld hall hblocks =>
    obtain ⟨hnext, hhistory, hfeed⟩ :=
      expects_headerStep hfinished hheld (hwire ▸ hall) hblocks (headerStep_of_step hphase hstep)
    exact ⟨hquiet hhistory hnext, hfeed⟩
  | blockHeader hframed hphase hfinished hheld hall hblocks =>
    subst hall
    obtain ⟨hnext, hhistory, hfeed⟩ :=
      expects_blockHeaderStep hframed hfinished hheld (hwire ▸ hblocks) (blockHeaderStep_of_step hphase hstep)
    exact ⟨hquiet (.inl hhistory) hnext, hfeed⟩
  | @raw isLast c blocks plain hframed hphase hfinished hblocks =>
    obtain ⟨hraw, rfl⟩ := rawStep_of_step hphase hstep
    obtain ⟨bytes, rest, hjoin, hnext, hsame, hhistory⟩ := expects_rawStep hframed hphase hfinished hblocks hwire hraw
    have hwaiting : d'.waiting = bytes := by
      rw [waiting, hhistory, hsame, hgiven, ← Bytes.length_toList, List.drop_left]
    have hsize : d'.history.size = d.history.size + bytes.length := by
      rw [← Bytes.length_toList, hhistory, List.length_append, Bytes.length_toList]
    exact ⟨⟨by omega, rest, by rw [hcontents, hwaiting, hjoin], hnext⟩, rfl, rfl⟩
  | ended hphase hfinished =>
    rw [step_ended hphase] at hstep
    obtain ⟨-, rfl, rfl⟩ : _ ∧ _ ∧ _ := by simpa using hstep
    refine ⟨hquiet (.inr ⟨rfl, rfl⟩) ?_, rfl, rfl⟩
    rw [hwire]
    exact .atEnd rfl rfl
  | atEnd hphase hfinished =>
    obtain ⟨hrest, rfl⟩ := List.append_eq_nil_iff.mp hwire
    obtain ⟨hnext, hhistory, hfeed⟩ := expects_endStep hfinished hrest (headerStep_of_step hphase hstep)
    exact ⟨hquiet (.inl hhistory) ((List.append_nil _).symm ▸ hnext), hfeed⟩

theorem keeps_decoding (contents : Bytes) : Keeps (Decoding contents) where
  flush _ h hn := h.flush hn
  step h hpending hstep := h.step hpending hstep

/-- A decoder of which the payload may end has handed out all of the contents. -/
theorem Decoding.eq_of_mayEnd (h : Decoding contents d wire given) (hend : d.mayEnd = true) : given = contents := by
  obtain ⟨-, plain, rfl, hexpects⟩ := h
  obtain ⟨hfinished, hpending⟩ : d.finished = true ∧ d.pending = 0 := by simpa [mayEnd] using hend
  rw [waiting_of_pending hpending]
  cases hexpects with
  | header _ hopen | blockHeader _ _ hopen | raw _ _ hopen | ended _ hopen =>
    rw [hfinished] at hopen
    cases hopen
  | atEnd => rw [List.append_nil, List.append_nil]

/-- A new decoder of what was encoded. -/
theorem decoding_encode (contents : Bytes) : Decoding contents {} (encode contents) [] := by
  obtain ⟨wire, hencode, hblocks⟩ := blocks_encode contents
  refine ⟨Nat.le_refl 0, contents, by simp [waiting], ?_⟩
  exact .header rfl rfl (by decide) (by rw [Bytes.toList_empty, hencode, List.nil_append]) hblocks

end Decoder

/-- What was encoded decodes to its contents only. -/
theorem decodes_encode_iff {contents plain : Bytes} : Decodes (encode contents) plain ↔ plain = contents := by
  constructor
  · rintro ⟨d, hfeeds, hend⟩
    exact (hfeeds.preserves (Decoder.keeps_decoding contents) (Decoder.decoding_encode contents)).eq_of_mayEnd hend
  · rintro rfl
    exact decodes_encode plain

end Zstd

end Depot
