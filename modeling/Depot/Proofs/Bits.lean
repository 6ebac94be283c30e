import Depot.Proofs.Utf8
import Mathlib.Algebra.Group.Nat.Defs
import Mathlib.Data.List.Basic
import Mathlib.Data.List.Induction

/-!
# Bits

The bits of numbers and of byte strings, the most significant one first, and the numbers that bits write.

## Main results

* `bits_add` — the upper and the lower bits of a number.
* `number_bits` — bits are read back.
* `Bytes.reverse_ofNat_number` — the bits of a byte string are read back in bytes.
-/

namespace Depot

/-- The low bits of a number, the highest of them first. -/
def bits : Nat → Nat → List Bool
  | 0, _ => []
  | width + 1, n => n.testBit width :: bits width n

/-- The number that some bits write. -/
def number (xs : List Bool) : Nat := xs.foldl (fun n x => 2 * n + x.toNat) 0

/-- The bits of a byte string. -/
def Bytes.toBits (data : Bytes) : List Bool := data.flatMap fun b => bits 8 b.toNat

section Numbers

variable {v w m n : Nat} {xs ys : List Bool}

@[simp] theorem length_bits (w n : Nat) : (bits w n).length = w := by
  induction w with
  | zero => rfl
  | succ w ih => rw [bits, List.length_cons, ih]

theorem bits_congr (h : ∀ i < w, m.testBit i = n.testBit i) : bits w m = bits w n := by
  induction w with
  | zero => rfl
  | succ w ih => rw [bits, bits, h w (by omega), ih fun i hi => h i (by omega)]

/-- The upper and the lower bits of a number. -/
theorem bits_add (v w n : Nat) : bits (v + w) n = bits v (n >>> w) ++ bits w n := by
  induction v with
  | zero => simp [bits]
  | succ v ih => rw [Nat.succ_add, bits, bits, ih, Nat.testBit_shiftRight, Nat.add_comm w v, List.cons_append]

theorem bits_mod (h : w ≤ v) (n : Nat) : bits w (n % 2 ^ v) = bits w n :=
  bits_congr fun i hi => by simp [Nat.testBit_mod_two_pow, Nat.lt_of_lt_of_le hi h]

theorem bits_zero (w : Nat) : bits w 0 = List.replicate w false := by
  induction w with
  | zero => rfl
  | succ w ih => rw [bits, ih, Nat.zero_testBit, List.replicate_succ]

theorem bits_shiftLeft (v w n : Nat) : bits (v + w) (n <<< w) = bits v n ++ List.replicate w false := by
  have hlow : bits w (n <<< w) = bits w 0 := bits_congr fun i hi => by simp [Nat.testBit_shiftLeft, Nat.not_le.mpr hi]
  rw [bits_add, hlow, bits_zero, Nat.shiftLeft_shiftRight]

theorem number_concat (xs : List Bool) (x : Bool) : number (xs ++ [x]) = 2 * number xs + x.toNat := by
  rw [number, List.foldl_concat, number]

theorem number_append (xs ys : List Bool) : number (xs ++ ys) = number xs * 2 ^ ys.length + number ys := by
  induction ys using List.reverseRecOn with
  | nil => simp [number]
  | append_singleton ys y ih =>
    rw [← List.append_assoc, number_concat, number_concat, ih, List.length_append, List.length_singleton,
      Nat.pow_succ, ← Nat.mul_assoc]
    omega

theorem number_replicate (k : Nat) : number (List.replicate k false) = 0 := by
  induction k with
  | zero => rfl
  | succ k ih => rw [List.replicate_succ', number_concat, ih, Bool.toNat_false]

/-- Bits are read back. -/
theorem number_bits (w n : Nat) : number (bits w n) = n % 2 ^ w := by
  induction w with
  | zero => simp [bits, number, Nat.mod_one]
  | succ w ih =>
    have hfirst : number [n.testBit w] = n / 2 ^ w % 2 := by simp [number, Nat.toNat_testBit]
    rw [bits, ← List.singleton_append, number_append, hfirst, length_bits, ih, Nat.pow_succ, Nat.mod_mul,
      Nat.mul_comm, Nat.add_comm]

theorem number_bits_of_lt (h : n < 2 ^ w) : number (bits w n) = n := by
  rw [number_bits, Nat.mod_eq_of_lt h]

end Numbers

namespace Bytes

@[simp] theorem toBits_append (a b : Bytes) : toBits (a ++ b) = toBits a ++ toBits b := by
  simp [toBits]

@[simp] theorem length_toBits (data : Bytes) : (toBits data).length = 8 * data.length := by
  induction data with
  | nil => rfl
  | cons b data ih =>
    rw [toBits, List.flatMap_cons, List.length_append, length_bits, List.length_cons]
    rw [toBits] at ih
    omega

/-- The bits of a byte string are read back in bytes. -/
theorem reverse_ofNat_number (data : Bytes) : (ofNat data.length (number (toBits data))).reverse = data := by
  induction data using List.reverseRecOn with
  | nil => rfl
  | append_singleton data b ih =>
    have hb : b.toNat < 2 ^ 8 := b.toNat_lt
    have hlast : toBits [b] = bits 8 b.toNat := by simp [toBits]
    have hnumber : number (toBits (data ++ [b])) = number (toBits data) * 256 + b.toNat := by
      have hpow : 2 ^ 8 = 256 := by decide
      rw [toBits_append, number_append, hlast, number_bits_of_lt hb, length_bits, hpow]
    have hlow : (number (toBits data) * 256 + b.toNat) % 256 = b.toNat := by omega
    have hhigh : (number (toBits data) * 256 + b.toNat) / 256 = number (toBits data) := by omega
    rw [List.length_append, List.length_singleton, hnumber, ofNat, hlow, hhigh, List.reverse_cons, ih,
      UInt8.ofNat_toNat]

end Bytes

end Depot
