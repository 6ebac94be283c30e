import Depot.Proofs.Base32
import Mathlib.Algebra.Order.Floor.Div

/-!
# Reading base32

What was written is read back, so that a text tells its bytes.

## Main results

* `Base32.decode?_encode` — what was written is read back.
* `Base32.encode_standard` — what is written is the form of RFC 4648, through a buffer that loses no bit.
-/

namespace Depot.Base32

/-! ## Values -/

/-- The number that some five-bit values write. -/
def join (vs : List Nat) : Nat := vs.foldl (fun n v => n * 32 + v) 0

theorem number_flatMap_bits {vs : List Nat} (h : ∀ v ∈ vs, v < 32) : number (vs.flatMap (bits 5)) = join vs := by
  induction vs using List.reverseRecOn with
  | nil => rfl
  | append_singleton vs v ih =>
    obtain ⟨hvs, hv⟩ := List.forall_mem_append.mp h
    have hlast : number (bits 5 v) = v := number_bits_of_lt (hv v (List.mem_singleton_self v))
    have hpow : 2 ^ 5 = 32 := by decide
    rw [List.flatMap_append, List.flatMap_singleton, number_append, ih hvs, hlast, length_bits, hpow, join, join,
      List.foldl_concat]

theorem length_flatMap_bits (vs : List Nat) : (vs.flatMap (bits 5)).length = 5 * vs.length := by
  rw [List.length_flatMap]
  simp [Nat.mul_comm]

/-- Values whose bits are those of a byte string and `k` zeros write its number, `k` bits further up. -/
theorem join_eq {vs : List Nat} {data : Bytes} {k : Nat} (hvs : ∀ v ∈ vs, v < 32)
    (h : vs.flatMap (bits 5) = Bytes.toBits data ++ List.replicate k false) :
    join vs = number (Bytes.toBits data) * 2 ^ k := by
  rw [← number_flatMap_bits hvs, h, number_append, number_replicate, List.length_replicate, Nat.add_zero]

/-- What a last group of values gives in bytes. -/
theorem ofNat_join {vs : List Nat} {data : Bytes} {k : Nat} (hvs : ∀ v ∈ vs, v < 32)
    (h : vs.flatMap (bits 5) = Bytes.toBits data ++ List.replicate k false) :
    join vs % 2 ^ k = 0 ∧ (Bytes.ofNat data.length (join vs / 2 ^ k)).reverse = data := by
  rw [join_eq hvs h, Nat.mul_mod_left, Nat.mul_div_cancel _ (Nat.two_pow_pos k)]
  exact ⟨rfl, Bytes.reverse_ofNat_number data⟩

/-- Bytes are read from values that have their bits, with less than five zeros behind them. -/
theorem ofQuintets?_eq {vs : List Nat} {data : Bytes} {k : Nat} (hvs : ∀ v ∈ vs, v < 32) (hk : k < 5)
    (h : vs.flatMap (bits 5) = Bytes.toBits data ++ List.replicate k false) : ofQuintets? vs = some data := by
  have hlength := congrArg List.length h
  rw [length_flatMap_bits, List.length_append, Bytes.length_toBits, List.length_replicate] at hlength
  have hzeros : k = 5 * vs.length % 8 := by omega
  have hsize : data.length = 5 * vs.length / 8 := by omega
  match vs with
  | [] => rw [List.length_eq_zero_iff.mp hsize, ofQuintets?]
  | [_] | [_, _, _] | [_, _, _, _, _, _] =>
    -- no bytes make so many symbols
    simp only [List.length_cons, List.length_nil] at hzeros
    omega
  | [_, _] | [_, _, _, _] | [_, _, _, _, _] | [_, _, _, _, _, _, _] =>
    simpa [ofQuintets?, join, hsize, hzeros] using ofNat_join hvs h
  | a :: b :: c :: d :: e :: f :: g :: i :: rest =>
    simp only [List.length_cons] at hsize
    obtain ⟨front, back, rfl, hfront⟩ : ∃ front back, data = front ++ back ∧ front.length = 5 :=
      ⟨data.take 5, data.drop 5, (List.take_append_drop 5 data).symm, by rw [List.length_take]; omega⟩
    have hsplit : [a, b, c, d, e, f, g, i].flatMap (bits 5) ++ rest.flatMap (bits 5) =
        Bytes.toBits front ++ (Bytes.toBits back ++ List.replicate k false) := by
      rw [← List.flatMap_append, ← List.append_assoc, ← Bytes.toBits_append, ← h]
      rfl
    obtain ⟨hgroup, hrest⟩ := List.append_inj hsplit (by rw [length_flatMap_bits, Bytes.length_toBits, hfront]; rfl)
    obtain ⟨hfirst, hvs⟩ :
        (∀ v ∈ [a, b, c, d, e, f, g, i], v < 32) ∧ ∀ v ∈ rest, v < 32 := List.forall_mem_append.mp hvs
    have hbytes := (ofNat_join (k := 0) hfirst (by simpa using hgroup)).2
    simpa [ofQuintets?, join, hfront, ofQuintets?_eq hvs hk hrest] using hbytes

/-! ## Texts -/

theorem getD_value?_lt {c : Char} (h : c ∈ alphabet) : (value? c).getD 0 < 32 := by
  obtain ⟨v, -, rfl⟩ := exists_eq_symbol h
  rw [value?_symbol, Option.getD_some]
  exact Nat.mod_lt v (by decide)

theorem symbol_number_symbolBits {c : Char} (h : c ∈ alphabet) : symbol (number (symbolBits c)) = c := by
  obtain ⟨v, hv, rfl⟩ := exists_eq_symbol h
  rw [symbolBits_symbol, number_bits_of_lt hv]

theorem mapM_value? {cs : List Char} (h : ∀ c ∈ cs, c ∈ alphabet) :
    cs.mapM value? = some (cs.map fun c => (value? c).getD 0) := by
  induction cs with
  | nil => rfl
  | cons c cs ih =>
    obtain ⟨hc, hcs⟩ := List.forall_mem_cons.mp h
    obtain ⟨v, hv⟩ := Option.isSome_iff_exists.mp (isSome_value? hc)
    simp [List.mapM_cons, hv, ih hcs]

/-- What was written is read back. -/
theorem decode?_encode (data : Bytes) : decode? (encode data) = some data := by
  obtain ⟨k, hk, hbits⟩ := textBits_encode data
  rw [decode?, mapM_value? mem_alphabet_of_mem_encode]
  refine ofQuintets?_eq (List.forall_mem_map.mpr fun c hc => ?_) hk (hbits ▸ ?_)
  · exact getD_value?_lt (mem_alphabet_of_mem_encode c hc)
  · rw [textBits, List.flatMap_map]
    rfl

/-- The symbols of a text are those of its bits, five by five. -/
theorem exists_groups (data : Bytes) :
    ∃ groups : List (List Bool), (∀ g ∈ groups, g.length = 5) ∧ groups.flatten = textBits (encode data) ∧
      (encode data).toList = groups.map fun g => symbol (number g) := by
  refine ⟨(encode data).toList.map symbolBits, ?_, List.flatMap_def.symm, ?_⟩
  · simp [symbolBits]
  · rw [List.map_map]
    exact (List.map_id _).symm.trans
      (List.map_congr_left fun c hc => (symbol_number_symbolBits (mem_alphabet_of_mem_encode c hc)).symm)

/-- What is written are the bits, with zeros behind them that complete the last five, each five as their symbol. At
every point of writing, what was written and the low bits of the buffer are the bits that were read. A text is
read back, and so it tells its bytes. -/
theorem encode_standard (data : Bytes) :
    (∃ groups : List (List Bool), (∀ g ∈ groups, g.length = 5) ∧
        (∃ k < 5, groups.flatten = Bytes.toBits data ++ List.replicate k false) ∧
        (encode data).toList = groups.map fun g => symbol (number g)) ∧
      (encode data).length = 8 * data.length ⌈/⌉ 5 ∧
      (∃ a, Accumulator.Reaches data a ∧ a.count < 5 ∧ encode data = a.finish) ∧
      (∀ front a, front <+: data → Accumulator.Reaches front a →
        a.count ≤ 12 ∧ textBits a.out ++ a.pending = Bytes.toBits front) ∧
      decode? (encode data) = some data ∧
      ∀ other, encode other = encode data → other = data := by
  obtain ⟨groups, hlength, hflatten, hsymbols⟩ := exists_groups data
  refine ⟨⟨groups, hlength, hflatten ▸ textBits_encode data, hsymbols⟩, ?_, encode_eq_finish data,
    fun front a _ hreach => ⟨hreach.count_le, hreach.bits_eq⟩, decode?_encode data, fun other h => ?_⟩
  · rw [length_encode, Nat.ceilDiv_eq_add_pred_div, Nat.add_sub_assoc (by decide)]
  · have hsame : some other = some data := by rw [← decode?_encode other, h, decode?_encode]
    exact Option.some.inj hsame

/-- Two bytes make four symbols; after the first byte three of its bits wait. -/
theorem encode_standard_two_bytes :
    encode [0x66, 0x6F] = "mzxq" ∧ "mzxq".length = 8 * 2 ⌈/⌉ 5 ∧ decode? "mzxq" = some [0x66, 0x6F] ∧
      textBits "m" ++ [true, true, false] = Bytes.toBits [0x66] := by
  have hencode : encode [0x66, 0x6F] = "mzxq" := by decide
  have hreach : Accumulator.Reaches [0x66] ⟨0x66, 3, "m"⟩ :=
    (Accumulator.Reaches.start.read 0x66 (by decide)).emit (by decide)
  obtain ⟨-, hlength, -, hstates, hdecode, -⟩ := encode_standard [0x66, 0x6F]
  exact ⟨hencode, hencode ▸ hlength, hencode ▸ hdecode, (hstates [0x66] _ ⟨[0x6F], rfl⟩ hreach).2⟩

example : encode [0x66, 0x6F, 0x6F, 0x62, 0x61, 0x72] = "mzxw6ytboi" := by decide

end Depot.Base32
