import Depot.Base32
import Depot.Proofs.Bits
import Depot.Proofs.Header.Reading

/-!
# Writing base32

The buffer of an accumulator is narrower than what is read through it. `Accumulator.Reaches` are the states while
some bytes are read: in each of them what was written and what waits in the buffer are the bits that were read, so
no bit is lost that is still to be written. Sixteen bytes, encoded, have the shape of an operation id.

## Main results

* `Base32.Accumulator.Reaches.bits_eq` — no bit is lost.
* `Base32.textBits_encode` — the symbols stand for the bits that were read, and for zeros behind them.
* `Base32.length_encode` — every five bits are one symbol.
* `Base32.isOperationId_encode` — sixteen bytes make an operation id.
-/

namespace Depot.Base32

/-! ## Symbols -/

theorem symbol_mem_alphabet (v : Nat) : symbol v ∈ alphabet := by
  have hall : ∀ i < 32, alphabet.getD i 'a' ∈ alphabet := by decide
  exact hall (v % 32) (Nat.mod_lt v (by decide))

theorem value?_symbol (v : Nat) : value? (symbol v) = some (v % 32) := by
  have hall : ∀ i < 32, value? (alphabet.getD i 'a') = some i := by decide
  exact hall (v % 32) (Nat.mod_lt v (by decide))

theorem exists_eq_symbol {c : Char} (h : c ∈ alphabet) : ∃ v < 32, c = symbol v := by
  obtain ⟨v, hv, rfl⟩ := List.getElem_of_mem h
  have hlength : alphabet.length = 32 := by decide
  have hlt : v < 32 := hlength ▸ hv
  refine ⟨v, hlt, ?_⟩
  rw [symbol, Nat.mod_eq_of_lt hlt, List.getD_eq_getElem?_getD, List.getElem?_eq_getElem hv, Option.getD_some]

theorem isSome_value? {c : Char} (h : c ∈ alphabet) : (value? c).isSome = true := by
  obtain ⟨v, -, rfl⟩ := exists_eq_symbol h
  rw [value?_symbol, Option.isSome_some]

/-- The bits that a symbol stands for. -/
def symbolBits (c : Char) : List Bool := bits 5 ((value? c).getD 0)

/-- The bits that the symbols of a text stand for. -/
def textBits (s : String) : List Bool := s.toList.flatMap symbolBits

theorem symbolBits_symbol (v : Nat) : symbolBits (symbol v) = bits 5 v := by
  rw [symbolBits, value?_symbol, Option.getD_some]
  exact bits_mod (Nat.le_refl 5) v

theorem length_textBits (s : String) : (textBits s).length = 5 * s.length := by
  rw [textBits, List.length_flatMap, ← String.length_toList]
  simp [symbolBits, Nat.mul_comm]

/-! ## The states while some bytes are read -/

namespace Accumulator

variable {a : Accumulator} {data : Bytes} {b : UInt8}

/-- The bits that were read and are not written yet. -/
def pending (a : Accumulator) : List Bool := bits a.count a.buffer.toNat

/-- Whether a state is reached when some bytes are read, one after the other, and written as soon as five of their
bits wait. -/
inductive Reaches : Bytes → Accumulator → Prop
  | start : Reaches [] {}
  | read {data : Bytes} {a : Accumulator} (b : UInt8) :
    Reaches data a → a.count < 5 → Reaches (data ++ [b]) (a.read b)
  | emit {data : Bytes} {a : Accumulator} : Reaches data a → 5 ≤ a.count → Reaches data a.emit

theorem mem_alphabet_of_mem_put (h : ∀ c ∈ a.out.toList, c ∈ alphabet) (v : UInt16) :
    ∀ c ∈ (a.put v).toList, c ∈ alphabet := by
  rw [put, String.toList_push]
  exact List.forall_mem_append.mpr ⟨h, by simpa using symbol_mem_alphabet _⟩

theorem textBits_put (a : Accumulator) (v : UInt16) : textBits (a.put v) = textBits a.out ++ bits 5 v.toNat := by
  have hmask : (v &&& 0x1F).toNat = v.toNat % 2 ^ 5 := by
    rw [UInt16.toNat_and]
    exact Nat.and_two_pow_sub_one_eq_mod v.toNat 5
  rw [put, textBits, String.toList_push, List.flatMap_append, List.flatMap_singleton, symbolBits_symbol, hmask,
    bits_mod (Nat.le_refl 5), textBits]

/-- A byte that is read pushes what waits upward, and nothing of it over the upper end. -/
theorem pending_read (h : a.count ≤ 8) (b : UInt8) : (a.read b).pending = a.pending ++ bits 8 b.toNat := by
  have hb : b.toNat < 2 ^ 8 := b.toNat_lt
  have hbuffer : (a.read b).buffer.toNat = a.buffer.toNat <<< 8 % 2 ^ 16 ||| b.toNat := by
    simp [read, UInt16.toNat_or, UInt16.toNat_shiftLeft]
  have hhigh : bits a.count ((a.read b).buffer.toNat >>> 8) = bits a.count a.buffer.toNat := bits_congr fun i hi => by
    have hfits : 8 + i < 16 := by omega
    have hbyte : b.toNat.testBit (8 + i) = false :=
      Nat.testBit_lt_two_pow (Nat.lt_of_lt_of_le hb (Nat.pow_le_pow_right (by decide) (Nat.le_add_right 8 i)))
    rw [hbuffer, Nat.testBit_shiftRight, Nat.testBit_or, Nat.testBit_mod_two_pow, Nat.testBit_shiftLeft, hbyte]
    simp [hfits]
  have hlow : bits 8 (a.read b).buffer.toNat = bits 8 b.toNat := bits_congr fun i hi => by
    rw [hbuffer, Nat.testBit_or, Nat.testBit_mod_two_pow, Nat.testBit_shiftLeft]
    simp [Nat.not_le.mpr hi]
  have hcount : (a.read b).count = a.count + 8 := rfl
  rw [pending, hcount, bits_add, hhigh, hlow, pending]

/-- The first five bits that wait are written. -/
theorem bits_emit (hfive : 5 ≤ a.count) (hfits : a.count ≤ 16) :
    textBits a.emit.out ++ a.emit.pending = textBits a.out ++ a.pending := by
  have hshift : (a.buffer >>> UInt16.ofNat (a.count - 5)).toNat = a.buffer.toNat >>> (a.count - 5) := by
    have hsmall : (a.count - 5) % 65536 % 16 = a.count - 5 := by omega
    simp [UInt16.toNat_shiftRight, hsmall]
  have hsplit : a.pending = bits 5 (a.buffer.toNat >>> (a.count - 5)) ++ bits (a.count - 5) a.buffer.toNat := by
    rw [← bits_add, Nat.add_sub_cancel' hfive, pending]
  show textBits (a.put _) ++ bits (a.count - 5) a.buffer.toNat = _
  rw [textBits_put, hshift, hsplit, List.append_assoc]

/-- The bits that are left are written with zeros behind them. -/
theorem textBits_finish (h : a.count < 5) :
    ∃ k < 5, textBits a.finish = textBits a.out ++ a.pending ++ List.replicate k false := by
  rcases Nat.eq_zero_or_pos a.count with hzero | hpos
  · refine ⟨0, by decide, ?_⟩
    rw [finish, if_neg (by omega), pending, hzero]
    simp [bits]
  · refine ⟨5 - a.count, by omega, ?_⟩
    have hshift : (a.buffer <<< UInt16.ofNat (5 - a.count)).toNat = a.buffer.toNat <<< (5 - a.count) % 2 ^ 16 := by
      have hsmall : (5 - a.count) % 65536 % 16 = 5 - a.count := by omega
      simp [UInt16.toNat_shiftLeft, hsmall]
    have hfive : 5 = a.count + (5 - a.count) := by omega
    rw [finish, if_pos hpos, textBits_put, hshift, bits_mod (by decide), List.append_assoc, pending,
      ← bits_shiftLeft, ← hfive]

namespace Reaches

/-- Everything that waits fits into the buffer. -/
theorem count_le (h : Reaches data a) : a.count ≤ 12 := by
  induction h with
  | start => exact Nat.zero_le 12
  | read b _ hfew _ => exact Nat.add_le_add_right (Nat.le_of_lt_succ hfew) 8
  | emit _ _ ih => exact Nat.le_trans (Nat.sub_le _ 5) ih

theorem mem_alphabet (h : Reaches data a) : ∀ c ∈ a.out.toList, c ∈ alphabet := by
  induction h with
  | start => simp
  | read _ _ _ ih => exact ih
  | emit _ _ ih => exact mem_alphabet_of_mem_put ih _

/-- No bit is lost: what was written and what waits in the buffer are the bits that were read. -/
theorem bits_eq (h : Reaches data a) : textBits a.out ++ a.pending = Bytes.toBits data := by
  induction h with
  | start => rfl
  | @read data a b _ hfew ih =>
    show textBits a.out ++ (a.read b).pending = _
    rw [pending_read (by omega), ← List.append_assoc, ih, Bytes.toBits_append]
    simp [Bytes.toBits]
  | emit hreach hfive ih => rw [bits_emit hfive (by have := hreach.count_le; omega), ih]

/-- Writing stops when less than five bits wait. -/
theorem drain (h : Reaches data a) : Reaches data a.drain ∧ a.drain.count < 5 := by
  rw [Accumulator.drain]
  generalize hn : a.count = n
  fun_induction drain.loop n a with
  | case1 n a ih => exact ih (h.emit (by omega)) (by simp [Accumulator.emit, hn])
  | case2 n a hfew =>
    refine ⟨h, ?_⟩
    by_contra hmany
    exact hfew (n - 5) (by omega)

end Reaches

/-- The state after all bytes of a string is reached, and no five bits wait in it. -/
theorem reaches_foldl (data : Bytes) :
    Reaches data (data.foldl (fun a b => (a.read b).drain) ({} : Accumulator)) ∧
      (data.foldl (fun a b => (a.read b).drain) ({} : Accumulator)).count < 5 := by
  induction data using List.reverseRecOn with
  | nil => exact ⟨.start, by decide⟩
  | append_singleton data b ih =>
    rw [List.foldl_concat]
    exact (ih.1.read b ih.2).drain

end Accumulator

/-! ## What is written -/

theorem encode_eq_finish (data : Bytes) :
    ∃ a, Accumulator.Reaches data a ∧ a.count < 5 ∧ encode data = a.finish :=
  have h := Accumulator.reaches_foldl data
  ⟨_, h.1, h.2, rfl⟩

/-- The symbols stand for the bits that were read, and for less than five zeros behind them. -/
theorem textBits_encode (data : Bytes) :
    ∃ k < 5, textBits (encode data) = Bytes.toBits data ++ List.replicate k false := by
  obtain ⟨a, hreach, hfew, hencode⟩ := encode_eq_finish data
  obtain ⟨k, hk, hfinish⟩ := Accumulator.textBits_finish hfew
  exact ⟨k, hk, by rw [hencode, hfinish, hreach.bits_eq]⟩

/-- Every five bits are one symbol, and so are the bits that are left. -/
theorem length_encode (data : Bytes) : (encode data).length = (8 * data.length + 4) / 5 := by
  obtain ⟨k, hk, hbits⟩ := textBits_encode data
  have hlength := congrArg List.length hbits
  rw [length_textBits, List.length_append, Bytes.length_toBits, List.length_replicate] at hlength
  omega

theorem encode_ne_empty {data : Bytes} (h : data ≠ []) : encode data ≠ "" := by
  have hpos := List.length_pos_iff.mpr h
  have hlength := length_encode data
  intro hempty
  rw [hempty, String.length_empty] at hlength
  omega

theorem mem_alphabet_of_mem_encode {data : Bytes} : ∀ c ∈ (encode data).toList, c ∈ alphabet := by
  obtain ⟨a, hreach, -, hencode⟩ := encode_eq_finish data
  rw [hencode, Accumulator.finish]
  split
  · exact Accumulator.mem_alphabet_of_mem_put hreach.mem_alphabet _
  · exact hreach.mem_alphabet

/-- Sixteen bytes make an operation id. -/
theorem isOperationId_encode {data : Bytes} (h : data.length = 16) : isOperationId (encode data) = true := by
  rw [isOperationId, String.length_toList, length_encode, h, Bool.and_eq_true]
  exact ⟨by decide, List.all_eq_true.mpr fun c hc => isSome_value? (mem_alphabet_of_mem_encode c hc)⟩

/-- What is encoded is readable in a header, and holds no tab. -/
theorem isReadable_encode (data : Bytes) : Headers.IsReadable (encode data) ∧ '\t' ∉ (encode data).toList := by
  have hread : Headers.IsReadable (String.ofList alphabet) := by decide
  have htab : '\t' ∉ alphabet := by decide
  exact ⟨fun c hc => hread c (String.toList_ofList ▸ mem_alphabet_of_mem_encode c hc),
    fun hc => htab (mem_alphabet_of_mem_encode _ hc)⟩

end Depot.Base32
