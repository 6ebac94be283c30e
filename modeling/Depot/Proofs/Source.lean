import Depot.Source

/-!
# Reading sources

What a read takes from a source. The bytes of a source are those that were read from it, followed by
the bytes that are left; an error takes none of them.

## Main results

* `Source.bytes_read` — every read splits the bytes of the source.
* `Source.bytes_of_end` — behind the end nothing is left.
* `Source.read_clean` — a source without errors only ever answers with bytes.
-/

namespace Depot

namespace ReadResult

@[simp] theorem bytes_ok (out : Bytes) : ReadResult.bytes (.ok out) = out := rfl

@[simp] theorem bytes_error (e : ReadError) : ReadResult.bytes (.error e) = [] := rfl

end ReadResult

namespace Source

variable {s s' : Source} {n : Nat} {r : ReadResult} {out : Bytes} {e : ReadError}

/-- The bytes of some pieces. -/
def Piece.bytesOf (pieces : List Piece) : Bytes := bytes ⟨pieces, false⟩

@[simp] theorem Piece.bytesOf_nil : Piece.bytesOf [] = [] := rfl

@[simp] theorem Piece.bytesOf_data (b : Bytes) (rest : List Piece) :
    Piece.bytesOf (.data b :: rest) = b ++ Piece.bytesOf rest := rfl

@[simp] theorem Piece.bytesOf_failure (e : ReadError) (rest : List Piece) :
    Piece.bytesOf (.failure e :: rest) = Piece.bytesOf rest := rfl

theorem bytes_eq (s : Source) : s.bytes = Piece.bytesOf s.pieces := rfl

@[simp] theorem bytes_ofBytes (b : Bytes) : (ofBytes b).bytes = b := by
  simp [ofBytes, bytes_eq]

theorem read_eq (s : Source) (n : Nat) :
    s.read n =
      ((readPieces s.isOpen n s.pieces).1, { s with pieces := (readPieces s.isOpen n s.pieces).2 }) :=
  rfl

/-! ## Taking bytes -/

theorem bytes_readPieces (isOpen : Bool) (n : Nat) (pieces : List Piece) :
    Piece.bytesOf pieces =
      ReadResult.bytes (readPieces isOpen n pieces).1 ++
        Piece.bytesOf (readPieces isOpen n pieces).2 := by
  fun_induction readPieces isOpen n pieces with
  | case1 => split <;> simp
  | case2 rest ih => simpa using ih
  | case3 => simp
  | case4 => simp [← List.append_assoc]
  | case5 => simp
  | case6 => simp

/-- What a read brings and what it leaves make up the source. -/
theorem bytes_read (h : s.read n = (r, s')) : s.bytes = r.bytes ++ s'.bytes := by
  obtain ⟨rfl, rfl⟩ := Prod.mk.inj ((read_eq s n).symm.trans h)
  exact bytes_readPieces s.isOpen n s.pieces

theorem readPieces_end {isOpen : Bool} {pieces : List Piece} (hn : n ≠ 0)
    (h : (readPieces isOpen n pieces).1 = .ok []) :
    isOpen = false ∧ (readPieces isOpen n pieces).2 = [] := by
  fun_induction readPieces isOpen n pieces with
  | case1 => simp_all
  | case2 rest ih => exact ih h
  | case3 => contradiction
  | case4 b rest hb hn' =>
    have : b.take n = [] := by simpa using h
    cases b <;> simp_all
  | case5 => contradiction
  | case6 => simp at h

/-- At its end a source has nothing left, and nothing will follow. -/
theorem read_end (hn : n ≠ 0) (h : s.read n = (.ok [], s')) :
    s'.isOpen = false ∧ s'.pieces = [] := by
  obtain ⟨hr, rfl⟩ := Prod.mk.inj ((read_eq s n).symm.trans h)
  exact readPieces_end hn hr

theorem bytes_of_end (hn : n ≠ 0) (h : s.read n = (.ok [], s')) : s'.bytes = [] := by
  rw [bytes_eq, (read_end hn h).2, Piece.bytesOf_nil]

/-! ## Sources without errors -/

/-- A source whose payload is all there and of which no read fails. -/
def Clean (s : Source) : Prop := s.isOpen = false ∧ ∀ p ∈ s.pieces, ∃ b, p = .data b

theorem clean_ofBytes (b : Bytes) : (ofBytes b).Clean := by simp [ofBytes, Clean]

theorem readPieces_clean {pieces : List Piece} (n : Nat) (h : ∀ p ∈ pieces, ∃ b, p = .data b) :
    (∃ out, (readPieces false n pieces).1 = .ok out) ∧
      ∀ p ∈ (readPieces false n pieces).2, ∃ b, p = .data b := by
  fun_induction readPieces false n pieces with
  | case1 => simp
  | case2 rest ih => exact ih fun p hp => h p (List.mem_cons_of_mem _ hp)
  | case3 => exact ⟨⟨_, rfl⟩, h⟩
  | case4 b rest =>
    refine ⟨⟨_, rfl⟩, fun p hp => ?_⟩
    rcases List.mem_cons.mp hp with rfl | hp
    · exact ⟨_, rfl⟩
    · exact h p (List.mem_cons_of_mem _ hp)
  | case5 => exact ⟨⟨_, rfl⟩, h⟩
  | case6 e rest =>
    obtain ⟨b, hb⟩ := h (.failure e) (List.mem_cons_self ..)
    cases hb

/-- Reads of a clean source bring bytes and leave it clean. -/
theorem read_clean (hs : s.Clean) (n : Nat) :
    (∃ out, (s.read n).1 = .ok out) ∧ (s.read n).2.Clean := by
  obtain ⟨hopen, hp⟩ := hs
  rw [read_eq, hopen]
  exact ⟨(readPieces_clean n hp).1, rfl, (readPieces_clean n hp).2⟩

end Source

end Depot
