import Depot.Proofs.Bytes
import Mathlib.Data.List.Basic
import Mathlib.Tactic.SplitIfs

/-!
# Texts and their bytes

Texts are ordered by the code points of their characters. UTF-8 keeps that order, so that a list of texts in
ascending order is in the ascending order of their bytes. A byte below 128 in an encoding is a character of its
own, so that a slash is seen in the bytes of a text.

## Main results

* `Bytes.ofText_lt_ofText` — a lesser text has the lesser bytes.
* `Bytes.eq_append_slash` — a slash at the end is read off the bytes.
-/

namespace Depot.Bytes

section Byte

variable {m n : Nat}

theorem toNat_ofNat_of_lt (h : n < 256) : (UInt8.ofNat n).toNat = n := by
  simp [Nat.mod_eq_of_lt h]

theorem ofNat_lt_ofNat (hm : m < 256) (hn : n < 256) : UInt8.ofNat m < UInt8.ofNat n ↔ m < n := by
  rw [UInt8.lt_iff_toNat_lt, toNat_ofNat_of_lt hm, toNat_ofNat_of_lt hn]

theorem ofNat_eq_ofNat (hm : m < 256) (hn : n < 256) : UInt8.ofNat m = UInt8.ofNat n ↔ m = n := by
  rw [← UInt8.toNat_inj, toNat_ofNat_of_lt hm, toNat_ofNat_of_lt hn]

end Byte

/-- The encodings of two characters differ in the order of the characters, whatever follows them. -/
theorem utf8EncodeChar_append_lt {c d : Char} (h : c < d) (s t : Bytes) :
    String.utf8EncodeChar c ++ s < String.utf8EncodeChar d ++ t := by
  have hlt : c.val.toNat < d.val.toNat := h
  have hmax : d.val.toNat < 0x110000 := by
    rcases d.valid with hd | hd <;> omega
  have hdigits (n : Nat) : n / 4096 = n / 64 / 64 ∧ n / 262144 = n / 64 / 64 / 64 := by omega
  simp only [String.utf8EncodeChar, hdigits]
  generalize c.val.toNat = m at *
  generalize d.val.toNat = n at *
  -- a case for each pair of lengths: the leading bytes differ, or the digits to the base of 64 do
  split_ifs <;>
    simp (disch := omega) only [List.cons_append, List.cons_lt_cons_iff, ofNat_lt_ofNat, ofNat_eq_ofNat] <;> omega

/-- A lesser text has the lesser bytes. -/
theorem ofText_lt_ofText {a b : String} (h : a < b) : ofText a < ofText b := by
  have hlist : a.toList < b.toList := h
  rw [ofText_eq_flatMap, ofText_eq_flatMap]
  generalize a.toList = cs at hlist
  generalize b.toList = ds at hlist
  induction hlist with
  | @nil d ds =>
    rw [List.flatMap_nil, List.flatMap_cons]
    cases hd : String.utf8EncodeChar d ++ ds.flatMap String.utf8EncodeChar with
    | nil => simp at hd
    | cons b bs => exact List.nil_lt_cons b bs
  | rel hcd =>
    rw [List.flatMap_cons, List.flatMap_cons]
    exact utf8EncodeChar_append_lt hcd _ _
  | cons _ ih =>
    rw [List.flatMap_cons, List.flatMap_cons]
    exact List.append_left_lt ih

/-- A byte below 128 is a character of its own. -/
theorem eq_of_mem_utf8EncodeChar {b : UInt8} {c : Char} (hb : b.toNat < 128)
    (h : b ∈ String.utf8EncodeChar c) : c.toNat = b.toNat := by
  have hval : c.toNat = c.val.toNat := rfl
  have hmax : c.val.toNat < 0x110000 := by
    rcases c.valid with hc | hc <;> omega
  have hdigits (n : Nat) : n / 4096 = n / 64 / 64 ∧ n / 262144 = n / 64 / 64 / 64 := by omega
  simp only [String.utf8EncodeChar, hdigits] at h
  generalize c.val.toNat = n at *
  split_ifs at h <;> simp only [List.mem_cons, List.not_mem_nil, or_false] at h
  · rw [h, toNat_ofNat_of_lt (by omega), hval]
  all_goals
    -- every byte of a longer encoding has its highest bit set
    rcases h with rfl | rfl | rfl | rfl <;> rw [toNat_ofNat_of_lt (by omega)] at hb <;> omega

/-- A text whose bytes end with that of a slash ends with a slash. -/
theorem eq_append_slash {b : Bytes} {s : String} (h : ofText s = b ++ ofText "/") : ∃ t, s = t ++ "/" := by
  have hslash : ofText "/" = [0x2F] := by rw [ofText_eq_flatMap]; rfl
  rw [hslash, ofText_eq_flatMap] at h
  rcases List.eq_nil_or_concat s.toList with hnil | ⟨cs, c, hcs⟩
  · simp [hnil] at h
  · rw [hcs, List.concat_eq_append, List.flatMap_append, List.flatMap_singleton] at h
    have hlast : (0x2F : UInt8) ∈ String.utf8EncodeChar c := by
      have hsome := congrArg List.getLast? h
      rw [List.getLast?_append_of_ne_nil _ String.utf8EncodeChar_ne_nil, List.getLast?_concat] at hsome
      exact List.mem_of_getLast? hsome
    obtain rfl : c = '/' := Char.toNat_inj.mp (eq_of_mem_utf8EncodeChar (by decide) hlast)
    exact ⟨String.ofList cs, String.toList_inj.mp (by simp [hcs])⟩

end Depot.Bytes
