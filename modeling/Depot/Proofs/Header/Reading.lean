import Depot.Proofs.Bytes
import Depot.Proofs.Header.Wire
import Depot.Proofs.Text
import Mathlib.Data.List.Basic

/-!
# Reading headers

A value is readable if all its characters are, which are the visible ones of ASCII, blanks and tabs. What is
read of a header is such a text, without blanks and tabs around it.

## Main results

* `Headers.readable?_ofText` — a text is read as it was written, or not at all.
* `Headers.isReadable_text?` — what is read consists of readable characters.
* `Headers.text?_of_values` — what comes back of a block of headers.
* `headerSafe_eq_self_iff` — a readable text fits into any header unless there is a tab in it.
-/

namespace Depot

namespace Headers

/-- Whether a character is readable in a header: visible ASCII, a blank or a tab. -/
def IsText (c : Char) : Prop := (0x20 ≤ c.toNat ∧ c.toNat < 0x7F) ∨ c.toNat = 0x09

instance : DecidablePred IsText := fun c =>
  inferInstanceAs (Decidable ((0x20 ≤ c.toNat ∧ c.toNat < 0x7F) ∨ c.toNat = 0x09))

/-- Whether all characters of a text are readable in a header. -/
def IsReadable (s : String) : Prop := ∀ c ∈ s.toList, IsText c

-- The list bounds the search: there are instances that go through all characters.
instance : DecidablePred IsReadable := fun s => List.decidableBAll IsText s.toList

theorem isReadable_iff (b : UInt8) :
    isReadable b = true ↔ (0x20 ≤ b.toNat ∧ b.toNat < 0x7F) ∨ b.toNat = 0x09 := by
  simp [isReadable, UInt8.le_iff_toNat_le, UInt8.lt_iff_toNat_lt, ← UInt8.toNat_inj]

theorem toNat_ofNat {n : Nat} (h : n < 0x80) : (Char.ofNat n).toNat = n := by
  have hvalid : n.isValidChar := .inl (by omega)
  rw [Char.ofNat, dif_pos hvalid]
  rfl

theorem isText_ofNat {b : UInt8} (h : isReadable b = true) : IsText (Char.ofNat b.toNat) := by
  rw [isReadable_iff] at h
  rw [IsText, toNat_ofNat (by omega)]
  exact h

/-- The bytes of a character are readable if it is, which is then the only one. -/
theorem isReadable_utf8EncodeChar (c : Char) :
    (String.utf8EncodeChar c).all isReadable = true ↔ IsText c := by
  rw [String.utf8EncodeChar]
  split
  · rename_i hlow
    have hbyte : (UInt8.ofNat c.val.toNat).toNat = c.toNat := by
      rw [UInt8.toNat_ofNat']
      exact Nat.mod_eq_of_lt (show c.val.toNat < 2 ^ 8 by omega)
    rw [List.all_cons, List.all_nil, Bool.and_true, isReadable_iff, hbyte]
    rfl
  · rename_i hhigh
    have hwide : 0x7F < c.toNat := Nat.lt_of_not_le hhigh
    have htext : ¬ IsText c := by
      rw [IsText]
      omega
    -- the first byte of more than one is none of ASCII
    have hfirst {n : Nat} (h : 0x80 ≤ n) (hn : n < 0x100) : isReadable (UInt8.ofNat n) = false := by
      rw [← Bool.not_eq_true, isReadable_iff, UInt8.toNat_ofNat', Nat.mod_eq_of_lt hn]
      omega
    simp only [htext, iff_false, Bool.not_eq_true]
    split
    · rw [List.all_cons, hfirst (by omega) (by omega), Bool.false_and]
    · split
      · rw [List.all_cons, hfirst (by omega) (by omega), Bool.false_and]
      · rw [List.all_cons, hfirst (by omega) (by omega), Bool.false_and]

theorem utf8EncodeChar_of_isText {c : Char} (h : IsText c) :
    (String.utf8EncodeChar c).map (fun b => Char.ofNat b.toNat) = [c] := by
  have hlow : c.val.toNat ≤ 0x7F := by
    have : c.toNat = c.val.toNat := rfl
    rw [IsText] at h
    omega
  have hbyte : (UInt8.ofNat c.val.toNat).toNat = c.toNat := by
    rw [UInt8.toNat_ofNat']
    exact Nat.mod_eq_of_lt (show c.val.toNat < 2 ^ 8 by omega)
  rw [String.utf8EncodeChar, if_pos hlow, List.map_cons, hbyte, Char.ofNat_toNat, List.map_nil]

/-- A text is read as it was written, or not at all. -/
theorem readable?_ofText (s : String) : readable? (Bytes.ofText s) = if IsReadable s then some s else none := by
  have hall : (Bytes.ofText s).all isReadable = true ↔ IsReadable s := by
    rw [Bytes.ofText_eq_flatMap, List.all_flatMap, List.all_eq_true]
    exact forall₂_congr fun c _ => isReadable_utf8EncodeChar c
  rw [readable?]
  by_cases hs : IsReadable s
  · have hchars : (Bytes.ofText s).map (fun b => Char.ofNat b.toNat) = s.toList := by
      rw [Bytes.ofText_eq_flatMap, List.map_flatMap, List.flatMap_congr fun c hc => utf8EncodeChar_of_isText (hs c hc),
        List.flatMap_singleton']
    rw [if_pos (hall.mpr hs), if_pos hs, hchars, String.ofList_toList]
  · rw [if_neg (mt hall.mp hs), if_neg hs]

/-- What is read of a value consists of readable characters. -/
theorem isReadable_of_readable? {value : Bytes} {s : String} (h : readable? value = some s) : IsReadable s := by
  rw [readable?] at h
  split at h
  · rename_i hall
    obtain rfl := Option.some.inj h
    intro c hc
    rw [String.toList_ofList, List.mem_map] at hc
    obtain ⟨b, hb, rfl⟩ := hc
    exact isText_ofNat (List.all_eq_true.mp hall b hb)
  · cases h

/-- What is read of a header consists of readable characters. -/
theorem isReadable_text? {h : Headers} {name s : String} (hs : h.text? name = some s) : IsReadable s := by
  rw [text?] at hs
  simp only [Option.bind_eq_bind, Option.bind_eq_some_iff] at hs
  obtain ⟨value, -, s', hread, hsome⟩ := hs
  split at hsome
  · cases hsome
  · obtain rfl := Option.some.inj hsome
    exact fun c hc => isReadable_of_readable? hread c (Text.mem_of_mem_trim hc)

/-! ## What comes back of a block -/

/-- What is read of a text that was written as the value of a header. -/
def read? (s : String) : Option String :=
  if IsReadable s ∧ Text.trim s ≠ "" then some (Text.trim s) else none

/-- Whether a text comes back as it was written: it is readable, and has no blanks around it. -/
def IsPlain (s : String) : Prop := IsReadable s ∧ Text.trim s = s

instance : DecidablePred IsPlain := fun s => inferInstanceAs (Decidable (IsReadable s ∧ Text.trim s = s))

theorem read?_eq_self_iff {s : String} (hs : s ≠ "") : read? s = some s ↔ IsPlain s := by
  rw [read?, IsPlain]
  constructor
  · intro h
    split at h
    · rename_i hread
      exact ⟨hread.1, Option.some.inj h⟩
    · cases h
  · rintro ⟨hread, htrim⟩
    rw [htrim, if_pos ⟨hread, hs⟩]

theorem IsPlain.read? {s : String} (h : IsPlain s) (hs : s ≠ "") : read? s = some s := (read?_eq_self_iff hs).mpr h

/-- Whether a text is visible ASCII throughout. -/
def IsWord (s : String) : Prop := ∀ c ∈ s.toList, 0x20 < c.toNat ∧ c.toNat < 0x7F

instance : DecidablePred IsWord := fun s =>
  List.decidableBAll (fun c : Char => 0x20 < c.toNat ∧ c.toNat < 0x7F) s.toList

theorem isWord_append {s t : String} : IsWord (s ++ t) ↔ IsWord s ∧ IsWord t := by
  simp only [IsWord, String.toList_append, List.forall_mem_append]

theorem isWord_of_digits {s : String} (h : ∀ c ∈ s.toList, Text.IsDigit c) : IsWord s := by
  intro c hc
  obtain ⟨hlow, hhigh⟩ : 0x30 ≤ c.toNat ∧ c.toNat ≤ 0x39 := h c hc
  omega

theorem not_isBlank_of_visible {c : Char} (hlow : 0x20 < c.toNat) (hhigh : c.toNat < 0x7F) :
    Text.isBlank c = false := by
  simp only [Text.isBlank, Bool.or_eq_false_iff, Bool.and_eq_false_iff, decide_eq_false_iff_not, beq_eq_false_iff_ne]
  omega

/-- A text comes back as it was written if all of it is readable and its ends are visible. -/
theorem isPlain_of_ends {s : String} (hs : IsReadable s)
    (hfirst : ∀ c ∈ s.toList.head?, 0x20 < c.toNat) (hlast : ∀ c ∈ s.toList.getLast?, 0x20 < c.toNat) : IsPlain s := by
  have hvisible {c : Char} (hc : c ∈ s.toList) (hlow : 0x20 < c.toNat) : Text.isBlank c = false := by
    refine not_isBlank_of_visible hlow ?_
    have htext := hs c hc
    rw [IsText] at htext
    omega
  refine ⟨hs, Text.trim_eq_self (fun c hc => ?_) fun c hc => ?_⟩
  · exact hvisible (List.mem_of_mem_head? hc) (hfirst c hc)
  · exact hvisible (List.mem_of_mem_getLast? hc) (hlast c hc)

theorem IsWord.isPlain {s : String} (h : IsWord s) : IsPlain s := by
  refine isPlain_of_ends (fun c hc => ?_) (fun c hc => ?_) fun c hc => ?_
  · have := h c hc
    rw [IsText]
    omega
  · exact (h c (List.mem_of_mem_head? hc)).1
  · exact (h c (List.mem_of_mem_getLast? hc)).1

theorem values_toHeaders {f : Fields} {name : String} (hlower : Text.lower name = name) :
    f.toHeaders.values name = (f.values name).map Bytes.ofText := by
  rw [values, Fields.toHeaders, Fields.values, List.filter_map, List.map_map, List.map_map, hlower]
  rfl

/-- A header whose values are those of a block is read as the value of the block. -/
theorem text?_of_values {h : Headers} {f : Fields} {name : String}
    (hvalues : h.values name = (f.values name).map Bytes.ofText) : h.text? name = (f.get? name).bind read? := by
  rw [text?, hvalues, List.head?_map, ← Fields.get?_eq_head?_values]
  cases f.get? name with
  | none => rfl
  | some s =>
    simp only [Option.map_some, Option.bind_eq_bind, Option.bind_some, readable?_ofText, read?]
    by_cases hs : IsReadable s
    · by_cases htrim : Text.trim s = ""
      · simp [hs, htrim]
      · simp [hs, htrim]
    · simp [hs]

end Headers

/-- A readable text can be written on the wire. -/
theorem Headers.IsReadable.validValue {s : String} (h : IsReadable s) : Fields.validValue s = true := by
  rw [Fields.validValue, List.all_eq_true]
  intro c hc
  have htab : c = '\t' ↔ c.toNat = 9 := Char.toNat_inj.symm
  rcases h c hc with ⟨hlow, hhigh⟩ | hnine
  · simp [hlow, show c.toNat ≠ 0x7F by omega]
  · simp [htab.mpr hnine]

/-- What is read of a header can be written on the wire again, and it is not empty. -/
theorem Headers.valid_of_read? {s t : String} (h : read? s = some t) : Fields.validValue t = true ∧ t ≠ "" := by
  rw [read?] at h
  split at h
  · rename_i hs
    obtain rfl := Option.some.inj h
    have hread : IsReadable (Text.trim s) := fun c hc => hs.1 c (Text.mem_of_mem_trim hc)
    exact ⟨hread.validValue, hs.2⟩
  · cases h

/-- A readable text fits into any header unless there is a tab in it. -/
theorem headerSafe_eq_self_iff {s : String} (h : Headers.IsReadable s) : headerSafe s = s ↔ '\t' ∉ s.toList := by
  have hsafe (c : Char) (hc : c ∈ s.toList) :
      (if ' ' ≤ c ∧ c ≤ '~' then c else '?') = c ↔ c ≠ '\t' := by
    have hrange : ' ' ≤ c ∧ c ≤ '~' ↔ 0x20 ≤ c.toNat ∧ c.toNat ≤ 0x7E := Iff.rfl
    have htab : c = '\t' ↔ c.toNat = 9 := Char.toNat_inj.symm
    have hmark : '?' = c ↔ 0x3F = c.toNat := Char.toNat_inj.symm
    have htext := h c hc
    rw [Headers.IsText] at htext
    rw [ne_eq, htab]
    split
    · grind
    · grind
  have hmap {f : Char → Char} : s.toList.map f = s.toList ↔ ∀ c ∈ s.toList, f c = c := by
    simpa using List.map_inj_left (l := s.toList) (f := f) (g := id)
  rw [headerSafe, ← String.toList_inj, String.toList_ofList, hmap]
  constructor
  · exact fun hall hmem => (hsafe _ hmem).mp (hall _ hmem) rfl
  · exact fun hno c hc => (hsafe c hc).mpr fun heq => hno (heq ▸ hc)

end Depot
