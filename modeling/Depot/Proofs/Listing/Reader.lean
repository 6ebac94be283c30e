import Depot.Proofs.Listing
import Depot.Proofs.Utf8
import Mathlib.Data.List.DropRight

/-!
# Reading a listing bit by bit

A reader of records makes a line only when the one before is used up, and a read may end anywhere in it. What was read
and what is left always make up the same text, so that reads of whatever sizes bring that text and nothing else, and
come to its end only when all of it was read.

## Main results

* `Listing.Reader.left_read` — a read takes what it brings from what is left.
* `Listing.Reader.read_eq_nil_iff` — only the end, or no room, brings nothing.
* `Listing.Reader.answers_eq` — the source of a listing is read in the same way.
* `Listing.Reader.reads_records` — reads of any sizes bring the lines of the records.
-/

namespace Depot

namespace Listing

/-! ## Lines -/

/-- The byte at which a line ends. -/
def newline : UInt8 := 10

theorem newline_not_mem_ofText {s : String} (h : '\n' ∉ s.toList) : newline ∉ Bytes.ofText s := by
  rw [Bytes.ofText_eq_flatMap, List.mem_flatMap]
  rintro ⟨c, hc, hmem⟩
  have hcode : c.toNat = '\n'.toNat := Bytes.eq_of_mem_utf8EncodeChar (by decide) hmem
  exact h (Char.toNat_inj.mp hcode ▸ hc)

/-- A line has its newline at its end, and no other one. -/
theorem line_eq (r : ObjectRecord) : ∃ body, line r = body ++ [newline] ∧ newline ∉ body := by
  refine ⟨Bytes.ofText r.toJson.compact, ?_, newline_not_mem_ofText (Json.newline_not_mem_compact _)⟩
  have hend : Bytes.ofText "\n" = [newline] := by
    rw [Bytes.ofText_eq_flatMap]
    rfl
  rw [line, Bytes.ofText_append, hend]

namespace Reader

variable {r : Reader} {n : Nat}

/-! ## One read -/

/-- Whether the position is one of the line. -/
def Within (r : Reader) : Prop := r.position ≤ r.line.length

theorem within_take (h : r.Within) (n : Nat) : (r.take n).2.Within := by
  unfold Within at h ⊢
  simp only [take]
  omega

theorem take_fst (r : Reader) (n : Nat) : (r.take n).1 = (r.line.drop r.position).take n := by
  rw [take, ← List.length_drop, ← List.take_eq_take_min]

theorem drop_take_snd (r : Reader) (n : Nat) :
    (r.take n).2.line.drop (r.take n).2.position = (r.line.drop r.position).drop n := by
  rw [take]
  simp only
  rw [← List.drop_drop, ← List.length_drop, List.drop_eq_drop_iff]
  omega

/-- What is taken is no longer left. -/
theorem left_take (r : Reader) (n : Nat) : (r.take n).1 ++ (r.take n).2.left = r.left := by
  rw [left, drop_take_snd, take_fst, ← List.append_assoc, List.take_append_drop]
  rfl

theorem left_refill (records : List ObjectRecord) (line : Bytes) (position : Nat) :
    (refill records line position).left = (⟨records, line, position⟩ : Reader).left := by
  fun_induction refill records line position with
  | case1 => rfl
  | case2 r rest line ih =>
    rw [ih]
    simp [left]
  | case3 => rfl

theorem within_refill {records : List ObjectRecord} {line : Bytes} {position : Nat} (h : position ≤ line.length) :
    (refill records line position).Within := by
  fun_induction refill records line position with
  | case1 | case3 => exact h
  | case2 r rest line ih => exact ih (Nat.zero_le _)

/-- After turning to the next line, the line is used up only behind the last record. -/
theorem refill_used {records : List ObjectRecord} {line : Bytes} {position : Nat}
    (h : (refill records line position).position = (refill records line position).line.length) :
    (refill records line position).records = [] := by
  fun_induction refill records line position with
  | case1 => rfl
  | case2 r rest line ih => exact ih h
  | case3 r rest line position hne => exact absurd h hne

/-- A read takes what it brings from what is left. -/
theorem left_read (r : Reader) (n : Nat) : (r.read n).1 ++ (r.read n).2.left = r.left := by
  rw [read]
  split
  · rfl
  · exact (left_take _ n).trans (left_refill r.records r.line r.position)

theorem within_read (h : r.Within) (n : Nat) : (r.read n).2.Within := by
  rw [read]
  split
  · exact h
  · exact within_take (within_refill h) n

theorem length_read_le (r : Reader) (n : Nat) : (r.read n).1.length ≤ n := by
  rw [read]
  split
  · exact Nat.zero_le n
  · rw [take_fst]
    exact List.length_take_le n _

/-- Only the end, or no room, brings nothing. -/
theorem read_eq_nil_iff (h : r.Within) : (r.read n).1 = [] ↔ n = 0 ∨ r.left = [] := by
  rw [read]
  split
  · next hn => simp [hn]
  · next hn =>
    have hwithin : (refill r.records r.line r.position).Within := within_refill h
    have hleft : (refill r.records r.line r.position).left = r.left := left_refill r.records r.line r.position
    have hused := @refill_used r.records r.line r.position
    rw [take_fst, ← hleft, List.take_eq_nil_iff, left, List.append_eq_nil_iff, List.drop_eq_nil_iff]
    refine or_congr_right ⟨fun hend => ⟨hend, ?_⟩, fun hnothing => hnothing.1⟩
    rw [hused (Nat.le_antisymm hwithin hend)]
    rfl

/-! ## All reads -/

/-- What reads of some sizes bring, one after the other, and the reader that they leave. -/
def reads (r : Reader) : List Nat → List Bytes × Reader
  | [] => ([], r)
  | n :: sizes => ((r.read n).1 :: ((r.read n).2.reads sizes).1, ((r.read n).2.reads sizes).2)

theorem length_reads (r : Reader) (sizes : List Nat) : (r.reads sizes).1.length = sizes.length := by
  induction sizes generalizing r with
  | nil => rfl
  | cons n sizes ih => exact congrArg (· + 1) (ih _)

theorem left_reads (r : Reader) (sizes : List Nat) : (r.reads sizes).1.flatten ++ (r.reads sizes).2.left = r.left := by
  induction sizes generalizing r with
  | nil => rfl
  | cons n sizes ih => rw [reads, List.flatten_cons, List.append_assoc, ih, left_read]

/-- Each read keeps to its size, and brings nothing only if it has no room or all was read before. -/
theorem reads_getElem (h : r.Within) {sizes : List Nat} {i : Nat} {out : Bytes} (hi : sizes[i]? = some n)
    (hout : (r.reads sizes).1[i]? = some out) :
    out.length ≤ n ∧ (out = [] ↔ n = 0 ∨ ((r.reads sizes).1.take i).flatten = r.left) := by
  induction sizes generalizing r i with
  | nil => cases hi
  | cons m sizes ih =>
    cases i with
    | zero =>
      obtain rfl : m = n := by simpa using hi
      obtain rfl : (r.read m).1 = out := by simpa [reads] using hout
      refine ⟨length_read_le r m, (read_eq_nil_iff h).trans (or_congr_right ?_)⟩
      rw [List.take_zero, List.flatten_nil, eq_comm]
    | succ i =>
      obtain ⟨hlength, hnothing⟩ := ih (within_read h m) (by simpa using hi) (by simpa [reads] using hout)
      refine ⟨hlength, hnothing.trans (or_congr_right ?_)⟩
      rw [reads, List.take_succ_cons, List.flatten_cons, ← left_read r m, List.append_cancel_left_eq]

/-- Once as many reads with room were made as there are bytes, all of them were read. -/
theorem left_reads_eq_nil (h : r.Within) {sizes : List Nat} (hsizes : r.left.length ≤ (sizes.filter (· ≠ 0)).length) :
    (r.reads sizes).2.left = [] := by
  induction sizes generalizing r with
  | nil => exact List.eq_nil_of_length_eq_zero (Nat.le_zero.mp hsizes)
  | cons n sizes ih =>
    refine ih (within_read h n) ?_
    have hleft := congrArg List.length (left_read r n)
    have hnothing := @read_eq_nil_iff r n h
    rw [List.length_append] at hleft
    by_cases hn : n = 0
    · rw [List.filter_cons_of_neg (by simp [hn])] at hsizes
      omega
    · rw [List.filter_cons_of_pos (by simp [hn]), List.length_cons] at hsizes
      by_cases hend : r.left = []
      · rw [hend] at hleft
        simp only [List.length_nil] at hleft
        omega
      · have hout : (r.read n).1 ≠ [] := fun heq => (hnothing.mp heq).elim hn hend
        have hpos := List.length_pos_iff.mpr hout
        omega

/-! ## The source of a listing -/

/-- The answers to reads of some sizes. -/
def answers (s : Source) : List Nat → List ReadResult
  | [] => []
  | n :: sizes => (s.read n).1 :: answers (s.read n).2 sizes

/-- The rest of the line under way, and the lines to come. -/
def pieces (r : Reader) : List Source.Piece :=
  .data (r.line.drop r.position) :: r.records.map fun record => .data (Listing.line record)

/-- The pieces without those in front that every read passes over. -/
def visible (pieces : List Source.Piece) : List Source.Piece := pieces.dropWhile (· = .data [])

theorem visible_empty (pieces : List Source.Piece) : visible (.data [] :: pieces) = visible pieces :=
  List.dropWhile_cons_of_pos (decide_eq_true rfl)

theorem readPieces_visible (n : Nat) (pieces : List Source.Piece) :
    Source.readPieces false n (visible pieces) = Source.readPieces false n pieces := by
  induction pieces with
  | nil => rfl
  | cons p rest ih =>
    by_cases hp : p = .data []
    · rw [hp, visible_empty, ih, Source.readPieces]
    · rw [visible, List.dropWhile_cons_of_neg (by simpa using hp)]

theorem readPieces_zero (pieces : List Source.Piece) : Source.readPieces false 0 pieces = (.ok [], visible pieces) := by
  fun_induction Source.readPieces false 0 pieces with
  | case2 rest ih => rw [ih, visible_empty]
  | _ => simp_all [visible]

theorem visible_refill (records : List ObjectRecord) (line : Bytes) (position : Nat) :
    visible (refill records line position).pieces = visible (⟨records, line, position⟩ : Reader).pieces := by
  fun_induction refill records line position with
  | case1 | case3 => rfl
  | case2 r rest line ih =>
    have hused : line.drop line.length = [] := List.drop_length
    rw [ih, pieces, pieces, hused, visible_empty]
    rfl

theorem readPieces_take (hused : r.line.drop r.position = [] → r.records = []) (hn : n ≠ 0) :
    ∃ rest, Source.readPieces false n r.pieces = (.ok (r.take n).1, rest) ∧
      visible rest = visible (r.take n).2.pieces := by
  rw [take_fst, pieces, pieces, drop_take_snd]
  have hrecords : (r.take n).2.records = r.records := rfl
  cases hline : r.line.drop r.position with
  | nil => exact ⟨[], by simp [hused hline, Source.readPieces], by simp [hrecords, hused hline, visible]⟩
  | cons b bs =>
    refine ⟨.data ((b :: bs).drop n) :: r.records.map fun record => .data (Listing.line record), ?_, ?_⟩
    · simp [Source.readPieces, hn]
    · rw [hrecords]

/-- A read of the reader is one of its pieces. -/
theorem readPieces_read (h : r.Within) (n : Nat) : ∃ rest,
    Source.readPieces false n r.pieces = (.ok (r.read n).1, rest) ∧ visible rest = visible (r.read n).2.pieces := by
  by_cases hn : n = 0
  · refine ⟨visible r.pieces, ?_, ?_⟩
    · rw [hn, readPieces_zero]
      rfl
    · rw [hn, visible, visible, List.dropWhile_idempotent]
      rfl
  · have hused : (refill r.records r.line r.position).line.drop (refill r.records r.line r.position).position = [] →
        (refill r.records r.line r.position).records = [] := fun hend =>
      refill_used (Nat.le_antisymm (within_refill h) (List.drop_eq_nil_iff.mp hend))
    obtain ⟨rest, hread, hrest⟩ := readPieces_take hused hn
    rw [read, if_neg hn]
    refine ⟨rest, ?_, hrest⟩
    rw [← hread, ← readPieces_visible, ← readPieces_visible n (refill _ _ _).pieces, visible_refill]

/-- The source of a listing is read in the same way. -/
theorem answers_eq (h : r.Within) {pieces : List Source.Piece} (hpieces : visible pieces = visible r.pieces)
    (sizes : List Nat) : answers ⟨pieces, false⟩ sizes = (r.reads sizes).1.map .ok := by
  induction sizes generalizing r pieces with
  | nil => rfl
  | cons n sizes ih =>
    obtain ⟨rest, hread, hrest⟩ := readPieces_read h n
    have hsource : Source.readPieces false n pieces = (.ok (r.read n).1, rest) := by
      rw [← hread, ← readPieces_visible, hpieces, readPieces_visible]
    rw [answers, Source.read_eq]
    simp only [hsource, reads, List.map_cons]
    rw [ih (within_read h n) hrest]

/-! ## A reader of records -/

/-- However a listing is read, with whatever sizes, the reads bring consecutive pieces of the lines of its records,
none longer than there was room for, and nothing only if there was no room or all was read before. Once there were as
many reads with room as bytes, all of them were read. The source of the listing answers in the same way. Each line has
its newline at its end only, and what was read is read back as the records. -/
theorem reads_records {records : List ObjectRecord} (h : ∀ r ∈ records, r.WellTyped) (sizes : List Nat) :
    let outs := (reads { records } sizes).1
    outs.flatten <+: records.flatMap Listing.line ∧ outs.length = sizes.length ∧
      (∀ (i n : Nat) (out : Bytes), sizes[i]? = some n → outs[i]? = some out →
        out.length ≤ n ∧ (out = [] ↔ n = 0 ∨ (outs.take i).flatten = records.flatMap Listing.line)) ∧
      ((records.flatMap Listing.line).length ≤ (sizes.filter (· ≠ 0)).length →
        outs.flatten = records.flatMap Listing.line) ∧
      answers (source records) sizes = outs.map .ok ∧
      (∀ r ∈ records, ∃ body, Listing.line r = body ++ [newline] ∧ newline ∉ body) ∧
      read? (records.flatMap Listing.line) = some records := by
  have hwithin : ({ records } : Reader).Within := Nat.le_refl 0
  have hleft : ({ records } : Reader).left = records.flatMap Listing.line := rfl
  have hsplit := left_reads { records } sizes
  rw [hleft] at hsplit
  refine ⟨⟨_, hsplit⟩, length_reads _ sizes, fun i n out => reads_getElem hwithin, fun hsizes => ?_, ?_,
    fun r _ => line_eq r, read?_lines h⟩
  · rwa [left_reads_eq_nil hwithin hsizes, List.append_nil] at hsplit
  · refine answers_eq hwithin ?_ sizes
    rw [pieces, List.drop_nil, visible_empty, List.map_map]
    rfl

/-- Records with a newline in a name and in an attribute, read without room, byte by byte and at once. -/
theorem reads_records_newlines : ∃ records : List ObjectRecord,
    (records.map fun r => (r.name, r.metadata)) = [("a\nb", []), ("c", [("k", "\n\"")])] ∧
    (∀ r ∈ records, r.WellTyped) ∧
    (reads { records } [0, 1, 1, 0, 400]).1.flatten <+: records.flatMap Listing.line ∧
    read? (records.flatMap Listing.line) = some records := by
  let records : List ObjectRecord :=
    [{ name := "a\nb", size := 7 }, { name := "c", hash := some "", metadata := [("k", "\n\"")] }]
  have htyped : ∀ r ∈ records, r.WellTyped := by
    intro r hr
    rcases List.mem_cons.mp hr with rfl | hr
    · exact ⟨by decide, by decide, by decide, by decide⟩
    · obtain rfl := List.mem_singleton.mp hr
      exact ⟨by decide, by decide, by decide, by decide⟩
  obtain ⟨hpieces, -, -, -, -, -, hback⟩ := reads_records htyped [0, 1, 1, 0, 400]
  exact ⟨records, rfl, htyped, hpieces, hback⟩

end Reader

end Listing

end Depot
