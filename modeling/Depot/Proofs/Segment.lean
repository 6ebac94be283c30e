import Depot.Proofs.Header.Reading
import Depot.Proofs.Key
import Depot.Proofs.Utf8
import Depot.Segment

/-!
# Writing and reading path segments

What was written is read back, and is written in letters, digits, `-._~` and triples of a percent sign and two
hexadecimal digits. A slash stands for itself, so the segments of a path can be read together or one by one.

## Main results

* `Segment.decode?_encode` — what was written is read back.
* `Segment.isWritten_encode` — the characters of what is written.
* `Segment.decodeBytes_append_slash` — a slash separates what is read.
-/

namespace Depot

namespace Segment

variable {c : Char} {cs : List Char}

/-! ## Reading -/

/-- A part of a path without a percent sign stands for itself. -/
theorem decodeBytes_of_not_mem {cs : List Char} (h : '%' ∉ cs) :
    decodeBytes cs = Bytes.ofText (String.ofList cs) := by
  fun_induction decodeBytes cs with
  | case1 | case2 => simp at h
  | case3 c rest hne ih =>
    rw [ih (by simp_all), ← Bytes.ofText_append]
    congr 1
    simp
  | case4 => simp [Bytes.ofText_eq]

theorem decode?_of_not_mem {s : String} (h : '%' ∉ s.toList) : decode? s = some s := by
  rw [decode?, decodeBytes_of_not_mem h, String.ofList_toList, Bytes.text?_ofText]

theorem decodeBytes_cons (hc : c ≠ '%') (cs : List Char) :
    decodeBytes (c :: cs) = Bytes.ofText (String.singleton c) ++ decodeBytes cs := by
  rw [decodeBytes]
  rintro a b rest rfl
  exact absurd rfl hc

/-- A percent sign that no two digits follow stands for itself. -/
theorem decodeBytes_percent
    (h : ∀ a b rest, cs = a :: b :: rest → Text.hexDigit? a = none ∨ Text.hexDigit? b = none) :
    decodeBytes ('%' :: cs) = Bytes.ofText "%" ++ decodeBytes cs := by
  match cs with
  | [] | [_] =>
    rw [decodeBytes]
    · rfl
    · simp
  | a :: b :: rest =>
    rw [decodeBytes]
    split
    · next hx hy => simpa [hx, hy] using h a b rest rfl
    · rfl

/-- A slash separates what is read. -/
theorem decodeBytes_append_slash (cs ds : List Char) :
    decodeBytes (cs ++ '/' :: ds) = decodeBytes cs ++ Bytes.ofText "/" ++ decodeBytes ds := by
  have hslash : Text.hexDigit? '/' = none := by decide
  fun_induction decodeBytes cs with
  | case1 a b rest x y hx hy ih => simp [decodeBytes, hx, hy, ih]
  | case2 a b rest hnot ih =>
    have hpercent : decodeBytes ('%' :: (a :: b :: rest ++ '/' :: ds)) =
        Bytes.ofText "%" ++ decodeBytes (a :: b :: rest ++ '/' :: ds) := by
      refine decodeBytes_percent fun a' b' rest' hcons => ?_
      obtain ⟨rfl, rfl, -⟩ : a = a' ∧ b = b' ∧ _ = rest' := by simpa using hcons
      cases hx : Text.hexDigit? a with
      | none => exact .inl rfl
      | some x => exact .inr (Option.eq_none_iff_forall_ne_some.mpr fun y hy => hnot x y hx hy)
    rw [List.cons_append, hpercent, ih]
    simp only [List.append_assoc]
  | case3 c rest hne ih =>
    have hcons : decodeBytes (c :: (rest ++ '/' :: ds)) =
        Bytes.ofText (String.singleton c) ++ decodeBytes (rest ++ '/' :: ds) := by
      by_cases hc : c = '%'
      · -- Less than two characters are between the percent sign and the slash, which is no digit.
        subst hc
        refine decodeBytes_percent fun a b rest' hrest => ?_
        match rest with
        | [] => exact .inl ((List.cons.inj hrest).1 ▸ hslash)
        | [_] => exact .inr ((List.cons.inj (List.cons.inj hrest).2).1 ▸ hslash)
        | a :: b :: rest => exact (hne a b rest rfl rfl).elim
      · exact decodeBytes_cons hc _
    rw [List.cons_append, hcons, ih]
    simp only [List.append_assoc]
  | case4 => exact decodeBytes_cons (by decide) ds

/-- A slash at the end stays there. -/
theorem exists_of_decode?_slash {s t : String} (h : decode? (s ++ "/") = some t) : ∃ u, t = u ++ "/" := by
  have hbytes := Bytes.ofText_of_text? h
  have hlists : (s ++ "/").toList = s.toList ++ '/' :: [] := by simp
  rw [hlists, decodeBytes_append_slash, decodeBytes, List.append_nil] at hbytes
  exact Bytes.eq_append_slash hbytes

/-! ## Reading what was written -/

/-- The digits of a byte, in capital letters. -/
theorem hexDigit?_toUpper : ∀ n < 16, Text.hexDigit? (Text.hexDigit n).toUpper = some n := by decide

theorem isPlain_iff (b : UInt8) : isPlain b = true ↔
    b < 128 ∧ ((Char.ofNat b.toNat).isAlphanum = true ∨ Char.ofNat b.toNat ∈ "-._~".toList) := by
  simp [isPlain]

theorem ofText_singleton {b : UInt8} (h : b < 128) : Bytes.ofText (String.singleton (Char.ofNat b.toNat)) = [b] := by
  have hcode : (Char.ofNat b.toNat).val.toNat = b.toNat := Headers.toNat_ofNat h
  have hascii : b.toNat ≤ 127 := Nat.le_of_lt_succ h
  rw [Bytes.ofText_eq_flatMap, String.toList_singleton, List.flatMap_singleton, String.utf8EncodeChar, hcode,
    if_pos hascii, UInt8.ofNat_toNat]

theorem decodeBytes_encodeByte (b : UInt8) (cs : List Char) :
    decodeBytes (encodeByte b ++ cs) = b :: decodeBytes cs := by
  unfold encodeByte
  split
  · next hplain =>
    obtain ⟨hascii, hc⟩ := (isPlain_iff b).mp hplain
    have hpercent : Char.ofNat b.toNat ≠ '%' := by
      rintro heq
      rw [heq] at hc
      revert hc
      decide
    rw [List.singleton_append, decodeBytes_cons hpercent, ofText_singleton hascii, List.singleton_append]
  · have hb : b.toNat < 256 := b.toNat_lt
    have hhigh := hexDigit?_toUpper (b.toNat / 16) (by omega)
    have hlow := hexDigit?_toUpper (b.toNat % 16) (by omega)
    simp only [Text.hexPair, List.map_cons, List.map_nil, List.cons_append, List.nil_append, decodeBytes, hhigh, hlow]
    rw [Nat.div_add_mod, UInt8.ofNat_toNat]

theorem decodeBytes_flatMap (data : Bytes) : decodeBytes (data.flatMap encodeByte) = data := by
  induction data with
  | nil => rfl
  | cons b data ih => rw [List.flatMap_cons, decodeBytes_encodeByte, ih]

/-- What was written is read back. -/
theorem decode?_encode (s : String) : decode? (encode s) = some s := by
  rw [decode?, encode, String.toList_ofList, decodeBytes_flatMap, Bytes.text?_ofText]

/-- What is written is a text without a percent sign only if it stands for that text. -/
theorem encode_ne {s t : String} (hplain : '%' ∉ t.toList) (h : s ≠ t) : encode s ≠ t := by
  intro heq
  have hs := decode?_encode s
  rw [heq, decode?_of_not_mem hplain] at hs
  exact h (Option.some.inj hs).symm

theorem mapM_decode? (segments : List String) : (segments.map encode).mapM decode? = some segments := by
  induction segments with
  | nil => rfl
  | cons s rest ih => simp [List.mapM_cons, decode?_encode, ih]

/-- Segments that were written are read back together. -/
theorem decode?_intercalate (segments : List String) :
    decode? ("/".intercalate (segments.map encode)) = some ("/".intercalate segments) := by
  have hbytes : decodeBytes ("/".intercalate (segments.map encode)).toList = Bytes.ofText ("/".intercalate segments) := by
    induction segments with
    | nil => simp [decodeBytes, Bytes.ofText_eq]
    | cons s rest ih =>
      have hs : decodeBytes (encode s).toList = Bytes.ofText s := by
        rw [encode, String.toList_ofList, decodeBytes_flatMap]
      cases rest with
      | nil => simpa using hs
      | cons t rest =>
        rw [List.map_cons, List.map_cons, String.intercalate_cons_cons, String.intercalate_cons_cons, Bytes.ofText_append,
          Bytes.ofText_append, ← ih, ← hs, ← decodeBytes_append_slash, String.append_assoc, String.toList_append,
          String.toList_append]
        rfl
  rw [decode?, hbytes, Bytes.text?_ofText]

/-! ## The characters of what is written -/

/-- Whether a character stands for itself in what is written. -/
def IsPlain (c : Char) : Prop := c.isAlphanum = true ∨ c ∈ "-._~".toList

instance : DecidablePred IsPlain := fun _ => inferInstanceAs (Decidable (_ ∨ _))

/-- Whether some characters are written: plain ones, and triples of a percent sign and two hexadecimal digits. -/
inductive IsWritten : List Char → Prop
  | nil : IsWritten []
  | plain {c : Char} {cs : List Char} : IsPlain c → IsWritten cs → IsWritten (c :: cs)
  | triple {x y : Char} {cs : List Char} :
    (Text.hexDigit? x).isSome → (Text.hexDigit? y).isSome → IsWritten cs → IsWritten ('%' :: x :: y :: cs)

theorem isWritten_flatMap (data : Bytes) : IsWritten (data.flatMap encodeByte) := by
  induction data with
  | nil => exact .nil
  | cons b data ih =>
    rw [List.flatMap_cons, encodeByte]
    split
    · next hplain => exact .plain ((isPlain_iff b).mp hplain).2 ih
    · have hb : b.toNat < 256 := b.toNat_lt
      exact .triple (Option.isSome_of_eq_some (hexDigit?_toUpper (b.toNat / 16) (by omega)))
        (Option.isSome_of_eq_some (hexDigit?_toUpper (b.toNat % 16) (by omega))) ih

theorem isWritten_encode (s : String) : IsWritten (encode s).toList := by
  rw [encode, String.toList_ofList]
  exact isWritten_flatMap _

theorem IsWritten.slash_not_mem (h : IsWritten cs) : '/' ∉ cs := by
  have hdigit {x : Char} (hx : (Text.hexDigit? x).isSome) : '/' ≠ x := by
    rintro rfl
    exact absurd hx (by decide)
  induction h with
  | nil => exact List.not_mem_nil
  | @plain c cs hc _ ih =>
    have hne : '/' ≠ c := by
      rintro rfl
      exact absurd hc (by decide)
    simp [hne, ih]
  | triple hx hy _ ih => simp [hdigit hx, hdigit hy, ih]

end Segment

end Depot
