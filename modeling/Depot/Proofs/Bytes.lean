import Depot.Bytes

/-!
# Packed byte strings

Packing a byte string into one contiguous block, seen through the operations on either side, and the bytes of
a text.
-/

namespace Depot.Bytes

/-! ## Listing the bytes of a block -/

theorem toList_loop (b : ByteArray) (i : Nat) (acc : Bytes) :
    ByteArray.toList.loop b i acc = acc.reverse ++ b.data.toList.drop i := by
  induction hn : b.size - i generalizing i acc with
  | zero =>
    have hi : b.data.toList.length ≤ i := by
      have : b.data.toList.length = b.size := rfl
      omega
    rw [ByteArray.toList.loop, if_neg (by omega), List.drop_eq_nil_of_le hi, List.append_nil]
  | succ n ih =>
    have hi : i < b.size := by omega
    have hget : b.get! i = b.data.toList.get ⟨i, hi⟩ := by
      simp [ByteArray.get!, getElem!_pos, hi]
    rw [ByteArray.toList.loop, if_pos hi, ih (i + 1) _ (by omega), List.drop_eq_getElem_cons hi,
      hget]
    simp

theorem toList_eq (b : ByteArray) : b.toList = b.data.toList := by
  rw [ByteArray.toList, toList_loop, List.reverse_nil, List.nil_append, List.drop_zero]

@[simp] theorem toList_append (a b : ByteArray) : (a ++ b).toList = a.toList ++ b.toList := by
  simp [toList_eq]

/-! ## Packing -/

@[simp] theorem toList_pack (b : Bytes) : (pack b).toList = b := toList_eq _

@[simp] theorem size_pack (b : Bytes) : (pack b).size = b.length := rfl

@[simp] theorem pack_nil : pack [] = ByteArray.empty := rfl

theorem extract_pack (b : Bytes) (i j : Nat) : (pack b).extract i j = pack ((b.drop i).take (j - i)) := by
  apply ByteArray.ext
  simp [pack, ByteArray.data_extract]

/-! ## Texts -/

theorem ofText_eq (s : String) : ofText s = s.toByteArray.data.toList := toList_eq _

theorem ofText_append (s t : String) : ofText (s ++ t) = ofText s ++ ofText t := by
  simp [ofText_eq]

theorem ofText_eq_flatMap (s : String) : ofText s = s.toList.flatMap String.utf8EncodeChar := by
  rw [ofText_eq, ← String.utf8Encode_toList, List.utf8Encode, List.data_toByteArray]

/-- The bytes of a text are those of that text. -/
theorem text?_ofText (s : String) : text? (ofText s) = some s := by
  have hpack : pack (ofText s) = s.toByteArray := by
    rw [ofText_eq]
    rfl
  rw [text?, hpack, String.fromUTF8?, dif_pos s.isValidUTF8]
  rfl

theorem ofText_of_text? {b : Bytes} {s : String} (h : text? b = some s) : ofText s = b := by
  rw [text?, String.fromUTF8?] at h
  split at h
  · cases h
    rw [ofText_eq]
    rfl
  · cases h

end Depot.Bytes
