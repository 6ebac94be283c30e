import Depot.Text
import Mathlib.Algebra.Group.Nat.Defs
import Mathlib.Data.List.DropRight

/-!
# Trimming, numbers and splitting

A text that neither begins nor ends with a blank is trimmed already, and the decimal digits of a number, with
or without zeros in front, are read back as the number. A text is split at each of its separators.

## Main results

* `Text.trim_eq_self` — a text without blanks around it is trimmed.
* `Text.decimal?_padded` — digits are read back.
* `Text.split_inj` — the pieces between the separators determine a text.
-/

namespace Depot.Text

/-! ## Trimming -/

section Trimming

variable {p : Char → Bool} {cs : List Char}

theorem trimList_sublist (p : Char → Bool) (cs : List Char) : (trimList p cs).Sublist cs := by
  have hback : ((cs.dropWhile p).reverse.dropWhile p).reverse.Sublist (cs.dropWhile p).reverse.reverse :=
    (List.dropWhile_sublist p).reverse
  rw [List.reverse_reverse] at hback
  exact hback.trans (List.dropWhile_sublist p)

theorem mem_of_mem_trim {s : String} {c : Char} (h : c ∈ (trim s).toList) : c ∈ s.toList := by
  rw [trim, String.toList_ofList] at h
  exact (trimList_sublist isBlank s.toList).subset h

theorem dropWhile_eq_self (h : ∀ c ∈ cs.head?, p c = false) : cs.dropWhile p = cs := by
  cases cs with
  | nil => rfl
  | cons c cs => rw [List.dropWhile_cons_of_neg (by simp [h c rfl])]

theorem trimList_eq_self (hfirst : ∀ c ∈ cs.head?, p c = false) (hlast : ∀ c ∈ cs.getLast?, p c = false) :
    trimList p cs = cs := by
  rw [trimList, dropWhile_eq_self hfirst, dropWhile_eq_self (by simpa using hlast), List.reverse_reverse]

/-- A text without blanks around it is trimmed. -/
theorem trim_eq_self {s : String} (hfirst : ∀ c ∈ s.toList.head?, isBlank c = false)
    (hlast : ∀ c ∈ s.toList.getLast?, isBlank c = false) : trim s = s := by
  rw [trim, trimList_eq_self hfirst hlast, String.ofList_toList]

/-- What is dropped in front of a list are repetitions of one element. -/
theorem replicate_append_dropWhile (c : Char) (cs : List Char) :
    ∃ n, List.replicate n c ++ cs.dropWhile (· == c) = cs := by
  have hall : ∀ x ∈ cs.takeWhile (· == c), x = c := fun x hx => by simpa using List.mem_takeWhile_imp hx
  refine ⟨(cs.takeWhile (· == c)).length, ?_⟩
  rw [← List.eq_replicate_of_mem hall, List.takeWhile_append_dropWhile]

theorem rdropWhile_append_replicate (c : Char) (cs : List Char) :
    ∃ n, cs.rdropWhile (· == c) ++ List.replicate n c = cs := by
  obtain ⟨n, hn⟩ := replicate_append_dropWhile c cs.reverse
  refine ⟨n, ?_⟩
  rw [← List.reverse_inj, ← hn, List.reverse_append, List.reverse_replicate, List.rdropWhile, List.reverse_reverse]

/-- What is dropped around a list are repetitions of one element. -/
theorem replicate_append_trimList (c : Char) (cs : List Char) :
    ∃ i j, List.replicate i c ++ trimList (· == c) cs ++ List.replicate j c = cs := by
  obtain ⟨i, hi⟩ := replicate_append_dropWhile c cs
  obtain ⟨j, hj⟩ := rdropWhile_append_replicate c (cs.dropWhile (· == c))
  refine ⟨i, j, ?_⟩
  rw [List.append_assoc]
  exact (congrArg (List.replicate i c ++ ·) hj).trans hi

theorem trimList_replicate {c : Char} {cs : List Char} (hfirst : cs.head? ≠ some c) (hlast : cs.getLast? ≠ some c)
    (hne : cs ≠ []) (i j : Nat) :
    trimList (· == c) (List.replicate i c ++ cs ++ List.replicate j c) = cs := by
  have hrepeated (n : Nat) : ∀ x ∈ List.replicate n c, (x == c) = true := fun x hx => by
    simp [List.eq_of_mem_replicate hx]
  have hdrop {xs : List Char} (hxs : xs.head? ≠ some c) : xs.dropWhile (· == c) = xs :=
    dropWhile_eq_self fun x hx => beq_eq_false_iff_ne.mpr fun heq => hxs (heq ▸ hx)
  have hfront : (cs ++ List.replicate j c).dropWhile (· == c) = cs ++ List.replicate j c :=
    hdrop (by rwa [List.head?_append_of_ne_nil _ hne])
  have hback : cs.reverse.dropWhile (· == c) = cs.reverse := hdrop (by rwa [List.head?_reverse])
  rw [trimList, List.append_assoc, List.dropWhile_append_of_pos (hrepeated i), hfront, List.reverse_append,
    List.reverse_replicate, List.dropWhile_append_of_pos (hrepeated j), hback, List.reverse_reverse]

theorem getLast?_rdropWhile_ne (c : Char) (cs : List Char) : (cs.rdropWhile (· == c)).getLast? ≠ some c := by
  intro hlast
  obtain ⟨hne, heq⟩ := List.mem_getLast?_eq_getLast hlast
  exact List.rdropWhile_last_not (· == c) cs hne (by simp [← heq])

end Trimming

/-! ## Numbers -/

/-- Whether a character is a decimal digit. -/
def IsDigit (c : Char) : Prop := '0' ≤ c ∧ c ≤ '9'

theorem isDigit_of_isDigit {c : Char} (h : c.isDigit = true) : IsDigit c := by
  rw [Char.isDigit, Bool.and_eq_true, decide_eq_true_eq, decide_eq_true_eq] at h
  exact h

theorem isDigit_of_mem_toString {n : Nat} {c : Char} (h : c ∈ (toString n).toList) : IsDigit c := by
  rw [Nat.toString_eq_ofList_toDigits, String.toList_ofList] at h
  exact isDigit_of_isDigit (Nat.isDigit_of_mem_toDigits (by decide) (by decide) h)

theorem foldlM_digits {cs : List Char} (h : ∀ c ∈ cs, IsDigit c) (n : Nat) :
    cs.foldlM (fun n c => (digit? c).map (10 * n + ·)) n = some (Nat.ofDigitChars 10 cs n) := by
  induction cs generalizing n with
  | nil => rfl
  | cons c cs ih =>
    have hdigit : digit? c = some (c.toNat - '0'.toNat) := if_pos (h c List.mem_cons_self)
    rw [List.foldlM_cons, hdigit, Nat.ofDigitChars_cons]
    exact ih (fun c hc => h c (List.mem_cons_of_mem _ hc)) _

theorem decimal?_eq {cs : List Char} (hne : cs ≠ []) (h : ∀ c ∈ cs, IsDigit c) :
    decimal? cs = some (Nat.ofDigitChars 10 cs 0) := by
  rw [decimal?, if_neg (by simpa using hne), foldlM_digits h]

theorem toList_padded (width n : Nat) : (padded width n).toList =
    List.replicate (width - (toString n).length) '0' ++ (toString n).toList := by
  simp [padded]

theorem isDigit_of_mem_padded {width n : Nat} {c : Char} (h : c ∈ (padded width n).toList) : IsDigit c := by
  rw [toList_padded, List.mem_append] at h
  rcases h with hzero | hdigit
  · rw [List.eq_of_mem_replicate hzero]
    exact ⟨by decide, by decide⟩
  · exact isDigit_of_mem_toString hdigit

theorem length_padded {width n : Nat} (hwidth : 0 < width) (h : n < 10 ^ width) :
    (padded width n).toList.length = width := by
  have hlength : (toString n).length ≤ width := by
    rw [Nat.toString_eq_ofList_toDigits, String.length_ofList]
    exact (Nat.length_toDigits_le_iff (by decide) hwidth).mpr h
  rw [toList_padded, List.length_append, List.length_replicate, String.length_toList]
  omega

/-- Digits are read back. -/
theorem decimal?_padded (width n : Nat) : decimal? (padded width n).toList = some n := by
  rw [decimal?_eq (by simp [toList_padded]) (fun c => isDigit_of_mem_padded), toList_padded,
    Nat.ofDigitChars_append, Nat.ofDigitChars_replicate_zero, Nat.mul_zero, Nat.toString_eq_ofList_toDigits,
    String.toList_ofList, Nat.ofDigitChars_ten_toDigits]

theorem size?_toString {n : Nat} (h : n < wordBound) : size? (toString n) = some n := by
  have hplus : '+' ∉ (toString n).toList := fun hmem => absurd (isDigit_of_mem_toString hmem).1 (by decide)
  have hpadded : (padded 0 n).toList = (toString n).toList := by simp [toList_padded]
  have hdecimal := decimal?_padded 0 n
  rw [hpadded] at hdecimal
  simp only [size?, unsigned?, Option.bind_eq_bind]
  split
  · rename_i heq
    exact absurd (heq ▸ List.mem_cons_self) hplus
  · rw [hdecimal, Option.bind_some, if_pos h]

/-! ## Splitting -/

section Splitting

variable {sep c : Char} {xs : List Char}

theorem splitList_eq_splitOn (sep : Char) (xs : List Char) : splitList sep xs = xs.splitOn sep := by
  induction xs with
  | nil => rfl
  | cons c xs ih =>
    rw [splitList, List.splitOn_cons_eq_if_modifyHead, ih]
    by_cases hc : c = sep
    · simp [hc]
    · obtain ⟨piece, more, hxs⟩ := List.exists_cons_of_ne_nil (List.splitOn_ne_nil sep xs)
      simp [hc, hxs]

theorem mem_of_mem_splitList {piece : List Char} (hpiece : piece ∈ splitList sep xs) (hc : c ∈ piece) :
    c ∈ xs := by
  fun_induction splitList sep xs generalizing piece <;> grind

theorem split_of_not_mem {sep : Char} {s : String} (h : sep ∉ s.toList) : split sep s = [s] := by
  rw [split, splitList_eq_splitOn, List.splitOn_eq_singleton h]
  simp

theorem split_ne_nil (sep : Char) (s : String) : split sep s ≠ [] := by
  rw [split, splitList_eq_splitOn]
  simp

/-- The pieces of a text make it up. -/
theorem intercalate_split (sep : Char) (s : String) : (String.singleton sep).intercalate (split sep s) = s := by
  rw [← String.toList_inj, String.toList_intercalate, split, List.map_map, splitList_eq_splitOn,
    String.toList_singleton]
  simp only [Function.comp_def, String.toList_ofList, List.map_id']
  exact List.intercalate_splitOn sep

theorem split_inj {sep : Char} {s t : String} (h : split sep s = split sep t) : s = t := by
  rw [← intercalate_split sep s, h, intercalate_split]

/-- Pieces without separators are found again. -/
theorem split_intercalate {sep : Char} {pieces : List String} (h : ∀ s ∈ pieces, sep ∉ s.toList) (hne : pieces ≠ []) :
    split sep ((String.singleton sep).intercalate pieces) = pieces := by
  rw [split, String.toList_intercalate, String.toList_singleton, splitList_eq_splitOn,
    List.splitOn_intercalate sep (List.forall_mem_map.mpr h) (by simpa using hne), List.map_map]
  simp [Function.comp_def]

theorem sep_not_mem_of_mem_splitList {piece : List Char} (hpiece : piece ∈ splitList sep xs) : sep ∉ piece := by
  fun_induction splitList sep xs generalizing piece <;> grind

theorem sep_not_mem_of_mem_split {sep : Char} {piece s : String} (h : piece ∈ split sep s) : sep ∉ piece.toList := by
  obtain ⟨cs, hcs, rfl⟩ := List.mem_map.mp h
  rw [String.toList_ofList]
  exact sep_not_mem_of_mem_splitList hcs

/-- The pieces of two lists with a separator between them are those of the first and those of the second. -/
theorem splitList_append_cons (sep : Char) (xs ys : List Char) :
    splitList sep (xs ++ sep :: ys) = splitList sep xs ++ splitList sep ys := by
  induction xs with
  | nil => simp [splitList]
  | cons c xs ih =>
    obtain ⟨piece, more, hxs⟩ : ∃ piece more, splitList sep xs = piece :: more := by
      rw [splitList_eq_splitOn]
      exact List.exists_cons_of_ne_nil (List.splitOn_ne_nil sep xs)
    rw [List.cons_append, splitList, splitList, ih, hxs]
    split <;> rfl

/-- The pieces of a path are those before and those behind a slash. -/
theorem split_append_slash (s t : String) : split '/' (s ++ "/" ++ t) = split '/' s ++ split '/' t := by
  have hlists : (s ++ "/" ++ t).toList = s.toList ++ '/' :: t.toList := by simp
  rw [split, hlists, splitList_append_cons, List.map_append]
  rfl

end Splitting

end Depot.Text
