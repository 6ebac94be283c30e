import Depot.Proofs.Zstd.Stored

/-!
# Single steps of a decoder

What a step takes off a piece, and all that it can do in the header of a frame, in the header of a block and in a
stored block. What decoders keep is proved from these.

## Main definitions

* `Decoder.Feed.rest` — what is left of a piece.
* `Decoder.Collected` — bytes that moved from a piece to those that are held.
* `Decoder.HeaderStep`, `Decoder.BlockHeaderStep`, `Decoder.RawStep` — what a step can do.
-/

namespace Depot

theorem Bytes.length_toList (b : ByteArray) : b.toList.length = b.size := by rw [toList_eq]; rfl

theorem Bytes.toList_empty : ByteArray.empty.toList = [] := by rw [toList_eq]; rfl

theorem Bytes.toList_extract (b : ByteArray) (i n : Nat) :
    (b.extract i (i + n)).toList = (b.toList.drop i).take n := by
  simp [toList_eq, ByteArray.data_extract, List.extract]

namespace Zstd.Decoder

/-! ## Pieces -/

/-- What is left of a piece. -/
def Feed.rest (f : Feed) : Bytes := f.input.toList.drop f.taken

section Pieces

variable {f f' : Feed} {held held' : ByteArray} {need count : Nat}

theorem Feed.length_rest (f : Feed) : f.rest.length = f.left := by
  rw [rest, List.length_drop, Bytes.length_toList, left]

theorem Feed.toList_take (f : Feed) (count : Nat) : (f.take count).1.toList = f.rest.take count := by
  show (f.input.extract f.taken (f.taken + min count f.left)).toList = f.rest.take count
  rw [Bytes.toList_extract, ← rest, ← length_rest, ← List.take_eq_take_min]

theorem Feed.size_take (f : Feed) (count : Nat) : (f.take count).1.size = min count f.left := by
  rw [← Bytes.length_toList, toList_take, List.length_take, length_rest]

theorem Feed.rest_take (f : Feed) (count : Nat) : (f.take count).2.rest = f.rest.drop count := by
  show f.input.toList.drop (f.taken + min count f.left) = f.rest.drop count
  rw [← List.drop_drop, ← rest, ← length_rest]
  by_cases h : count ≤ f.rest.length
  · rw [Nat.min_eq_left h]
  · have hlength : f.rest.length ≤ count := by omega
    rw [Nat.min_eq_right hlength, List.drop_length, List.drop_eq_nil_of_le hlength]

/-- Collecting moves bytes from the piece to those that are held. -/
structure Collected (f : Feed) (held : ByteArray) (need : Nat) (held' : ByteArray) (f' : Feed) : Prop where
  held_eq : held' = held ++ (f.take (need - held.size)).1
  feed_eq : f' = (f.take (need - held.size)).2

theorem collected (h : collect f held need = (held', f')) : Collected f held need held' f' :=
  ⟨(congrArg Prod.fst h).symm, (congrArg Prod.snd h).symm⟩

namespace Collected

theorem bytes (h : Collected f held need held' f') : held'.toList = held.toList ++ f.rest.take (need - held.size) := by
  rw [h.held_eq, Bytes.toList_append, Feed.toList_take]

theorem rest (h : Collected f held need held' f') : f'.rest = f.rest.drop (need - held.size) := by
  rw [h.feed_eq, Feed.rest_take]

theorem input (h : Collected f held need held' f') : f'.input = f.input := by
  rw [h.feed_eq]
  rfl

theorem output (h : Collected f held need held' f') : f'.output = f.output := by
  rw [h.feed_eq]
  rfl

theorem join (h : Collected f held need held' f') : held'.toList ++ f'.rest = held.toList ++ f.rest := by
  rw [h.bytes, h.rest, List.append_assoc, List.take_append_drop]

theorem join_tail (h : Collected f held need held' f') (tail : Bytes) :
    held'.toList ++ (f'.rest ++ tail) = held.toList ++ (f.rest ++ tail) := by
  rw [← List.append_assoc, h.join, List.append_assoc]

theorem size_eq (h : Collected f held need held' f') :
    held'.size = held.size + min (need - held.size) f.rest.length := by
  rw [h.held_eq, ByteArray.size_append, Feed.size_take, Feed.length_rest]

end Collected

end Pieces

/-! ## What a step can do -/

theorem headerSize_of_short {held : ByteArray} {need : Nat} (hshort : held.size < 5) (h : headerSize held = .ok need) :
    need = 5 := by
  rw [headerSize, if_pos hshort] at h
  split at h
  · exact (Except.ok.inj h).symm
  · cases h

section Inversion

variable {fresh more isLast : Bool} {d d' : Decoder} {f f' : Feed} {held : ByteArray} {left : Nat}

/-- What a step in a frame header can do. -/
inductive HeaderStep (fresh : Bool) (d : Decoder) (f : Feed) (held : ByteArray) (more : Bool) (d' : Decoder)
    (f' : Feed) : Prop
  | starved {need size : Nat} {held' : ByteArray} (hneed : headerSize held = .ok need)
      (hheld : Collected f held need held' f') (hsize : headerSize held' = .ok size) (hless : held'.size < need)
      (hmore : more = false) (hd : d' = { d with phase := .header held', finished := d.finished && held'.isEmpty })
  | partly {need size : Nat} {held' : ByteArray} (hneed : headerSize held = .ok need)
      (hheld : Collected f held need held' f') (hsize : headerSize held' = .ok size) (henough : need ≤ held'.size)
      (hless : held'.size < size) (hmore : more = true) (hd : d' = { d with phase := .header held', finished := false })
  | whole {need size : Nat} {held' : ByteArray} {f₁ : Feed} {h : Header} (hneed : headerSize held = .ok need)
      (hheld : Collected f held need held' f₁) (hsize : headerSize held' = .ok size) (henough : need ≤ held'.size)
      (hall : size ≤ held'.size) (hheader : readHeader held' = .ok h)
      (hframe : wholeFrame? f₁ held'.size h = some (.ok f')) (hmore : more = false) (hd : d' = d.atEnd)
  | begun {need size : Nat} {held' : ByteArray} {h : Header} (hneed : headerSize held = .ok need)
      (hheld : Collected f held need held' f') (hsize : headerSize held' = .ok size) (henough : need ≤ held'.size)
      (hall : size ≤ held'.size) (hheader : readHeader held' = .ok h) (hmore : more = true)
      (hd : { d with finished := false }.afterHeader h = .ok d')

theorem headerStep_of_step (hphase : d.phase = .header held) (h : step fresh d f = .ok (more, d', f')) :
    HeaderStep fresh d f held more d' f' := by
  simp only [step, hphase] at h
  cases hneed : headerSize held with
  | error e => rw [hneed] at h; cases h
  | ok need =>
    rw [hneed] at h
    simp only [bind, Except.bind] at h
    generalize hcollect : collect f held need = x at h
    obtain ⟨held', f₁⟩ := x
    have hheld := collected hcollect
    dsimp only at h
    cases hsize : headerSize held' with
    | error e => rw [hsize] at h; cases h
    | ok size =>
      rw [hsize] at h
      dsimp only at h
      split at h
      · rename_i hless
        obtain ⟨rfl, rfl, rfl⟩ : _ ∧ _ ∧ _ := by simpa [pure, Except.pure] using h
        exact .starved hneed hheld hsize hless rfl rfl
      · rename_i henough
        split at h
        · rename_i hless
          obtain ⟨rfl, rfl, rfl⟩ : _ ∧ _ ∧ _ := by simpa [pure, Except.pure] using h
          exact .partly hneed hheld hsize (Nat.le_of_not_lt henough) hless rfl rfl
        · rename_i hall
          cases hheader : readHeader held' with
          | error e => rw [hheader] at h; cases h
          | ok header =>
            rw [hheader] at h
            dsimp only at h
            split at h
            · rename_i done hframe
              split at hframe
              · cases done with
                | error e => cases h
                | ok f₂ =>
                  obtain ⟨rfl, rfl, rfl⟩ : _ ∧ _ ∧ _ := by simpa [pure, Except.pure] using h
                  exact .whole hneed hheld hsize (Nat.le_of_not_lt henough) (Nat.le_of_not_lt hall) hheader hframe rfl rfl
              · cases hframe
            · rw [← hphase] at h
              cases hafter : { d with finished := false }.afterHeader header with
              | error e => rw [hafter] at h; cases h
              | ok d₁ =>
                rw [hafter] at h
                obtain ⟨rfl, rfl, rfl⟩ : _ ∧ _ ∧ _ := by simpa [pure, Except.pure] using h
                exact .begun hneed hheld hsize (Nat.le_of_not_lt henough) (Nat.le_of_not_lt hall) hheader rfl hafter

/-- What a step in a block header can do. -/
inductive BlockHeaderStep (d : Decoder) (f : Feed) (held : ByteArray) (more : Bool) (d' : Decoder) (f' : Feed) : Prop
  | starved {held' : ByteArray} (hheld : Collected f held 3 held' f') (hless : held'.size < 3) (hmore : more = false)
      (hd : d' = { d with phase := .blockHeader held' })
  | whole {held' : ByteArray} {b : BlockHeader} (hheld : Collected f held 3 held' f') (henough : 3 ≤ held'.size)
      (hheader : readBlockHeader held' 0 = .ok b) (hmore : more = true) (hd : d.afterBlockHeader b = .ok d')

theorem blockHeaderStep_of_step (hphase : d.phase = .blockHeader held) (h : step fresh d f = .ok (more, d', f')) :
    BlockHeaderStep d f held more d' f' := by
  simp only [step, hphase] at h
  generalize hcollect : collect f held 3 = x at h
  obtain ⟨held', f₁⟩ := x
  have hheld := collected hcollect
  dsimp only at h
  split at h
  · rename_i hless
    obtain ⟨rfl, rfl, rfl⟩ : _ ∧ _ ∧ _ := by simpa [pure, Except.pure] using h
    exact .starved hheld hless rfl rfl
  · rename_i henough
    simp only [bind, Except.bind] at h
    cases hheader : readBlockHeader held' 0 with
    | error e => rw [hheader] at h; cases h
    | ok b =>
      rw [hheader] at h
      dsimp only at h
      cases hafter : d.afterBlockHeader b with
      | error e => rw [hafter] at h; cases h
      | ok d₁ =>
        rw [hafter] at h
        obtain ⟨rfl, rfl, rfl⟩ : _ ∧ _ ∧ _ := by simpa [pure, Except.pure] using h
        exact .whole hheld (Nat.le_of_not_lt henough) hheader rfl hafter

/-- What a step in a stored block can do: `bytes` are taken of its contents. -/
inductive RawStep (d : Decoder) (left : Nat) (isLast : Bool) (bytes : ByteArray) (more : Bool) (d' : Decoder) : Prop
  | nothing (hbytes : bytes.isEmpty = true) (hmore : more = false) (hd : d' = d)
  | whole (hbytes : bytes.size = left) (hsome : bytes.isEmpty = false) (hmore : more = true)
      (hd : { d with history := d.history ++ bytes }.afterBlock isLast = .ok d')
  | some (hbytes : bytes.size ≠ left) (hsome : bytes.isEmpty = false) (hmore : more = true)
      (hd : d' = { d with history := d.history ++ bytes, phase := .raw (left - bytes.size) isLast })

theorem rawStep_of_step (hphase : d.phase = .raw left isLast) (h : step fresh d f = .ok (more, d', f')) :
    RawStep d left isLast (f.take left).1 more d' ∧ f' = (f.take left).2 := by
  simp only [step, hphase] at h
  generalize f.take left = x at h
  obtain ⟨bytes, f₁⟩ := x
  dsimp only at h
  split at h
  · rename_i hbytes
    obtain ⟨rfl, rfl, rfl⟩ : _ ∧ _ ∧ _ := by simpa [pure, Except.pure] using h
    exact ⟨.nothing hbytes rfl rfl, rfl⟩
  · rename_i hsome
    simp only [bind, Except.bind] at h
    split at h
    · rename_i hbytes
      rw [← hphase] at h
      cases hafter : { d with history := d.history ++ bytes }.afterBlock isLast with
      | error e => rw [hafter] at h; cases h
      | ok d₁ =>
        rw [hafter] at h
        obtain ⟨rfl, rfl, rfl⟩ : _ ∧ _ ∧ _ := by simpa [pure, Except.pure] using h
        exact ⟨.whole hbytes (by simpa using hsome) rfl hafter, rfl⟩
    · rename_i hbytes
      obtain ⟨rfl, rfl, rfl⟩ : _ ∧ _ ∧ _ := by simpa [pure, Except.pure] using h
      exact ⟨.some hbytes (by simpa using hsome) rfl rfl, rfl⟩

end Inversion

end Zstd.Decoder

end Depot
