import Depot.Proofs.Instant

/-!
# Instants in JSON

The full text of an instant is read back as the instant by the relaxed reader, in all the years that this reader
can name: with the sign that a year beyond four digits has, and with as many digits of the second's fraction as
were written.

## Main results

* `Instant.inBounds_of_parse?` — the strict reader does not leave the years that the relaxed one can name.
* `Instant.parseRelaxed?_fullText` — the instant is read back.
-/

namespace Depot.Instant

open Text (padded)

/-- Whether the year of an instant is one that the relaxed reader can name. -/
def InBounds (t : Instant) : Prop := -Reader.yearBound ≤ t.date.year ∧ t.date.year < Reader.yearBound

instance : DecidablePred InBounds := fun t =>
  inferInstanceAs (Decidable (-Reader.yearBound ≤ t.date.year ∧ t.date.year < Reader.yearBound))

/-! ## The years of the strict reader -/

theorem year_previous (d : Date) : d.year - 1 ≤ d.previous.year ∧ d.previous.year ≤ d.year := by
  unfold Date.previous
  split_ifs <;> dsimp only <;> omega

theorem year_next (d : Date) : d.year ≤ d.next.year ∧ d.next.year ≤ d.year + 1 := by
  unfold Date.next
  split_ifs <;> dsimp only <;> omega

/-- An offset moves an instant by a day at most. -/
theorem year_ofLocal? {date : Date} {hour minute second nanos : Nat} {offset : Int} {t : Instant}
    (h : ofLocal? date hour minute second nanos offset = some t) :
    date.year - 1 ≤ t.date.year ∧ t.date.year ≤ date.year + 1 := by
  have hprevious := year_previous date
  have hnext := year_next date
  rw [ofLocal?] at h
  split at h
  rename_i moved minutes hmoved
  have hyear : date.year - 1 ≤ moved.year ∧ moved.year ≤ date.year + 1 := by
    split_ifs at hmoved <;> obtain ⟨rfl, -⟩ := Prod.mk.inj hmoved <;> omega
  split at h
  · obtain rfl := Option.some.inj h
    exact hyear
  · cases h

namespace Reader

section Gives

variable {α β : Type} {r : Reader α} {f : α → Reader β} {P : α → Prop} {Q : β → Prop}

/-- Whether everything that a reader gives has a property. -/
def Gives (r : Reader α) (P : α → Prop) : Prop := ∀ cs a rest, StateT.run r cs = some (a, rest) → P a

theorem Gives.bind (hr : r.Gives P) (hf : ∀ a, P a → (f a).Gives Q) : (r >>= f).Gives Q := by
  intro cs b rest h
  rw [StateT.run_bind] at h
  obtain ⟨⟨a, more⟩, ha, hb⟩ := Option.bind_eq_some_iff.mp h
  exact hf a (hr cs a more ha) more b rest hb

theorem Gives.bind_any (hf : ∀ a, (f a).Gives Q) : (r >>= f).Gives Q :=
  Gives.bind (P := fun _ => True) (fun _ _ _ _ => trivial) fun a _ => hf a

end Gives

theorem foldlM_digits_lt {cs : List Char} {m n : Nat}
    (h : cs.foldlM (fun n c => (Text.digit? c).map (10 * n + ·)) m = some n) : n < (m + 1) * 10 ^ cs.length := by
  induction cs generalizing m with
  | nil =>
    obtain rfl := Option.some.inj h
    simp
  | cons c cs ih =>
    rw [List.foldlM_cons] at h
    obtain ⟨k, hk, hrest⟩ := Option.bind_eq_some_iff.mp h
    obtain ⟨d, hd, rfl⟩ := Option.map_eq_some_iff.mp hk
    have hdigit : d < 10 := by
      rw [Text.digit?] at hd
      split at hd
      · rename_i hc
        obtain rfl := Option.some.inj hd
        have hhigh : c.toNat ≤ 57 := hc.2
        show c.toNat - 48 < 10
        omega
      · cases hd
    calc n < (10 * m + d + 1) * 10 ^ cs.length := ih hrest
      _ ≤ ((m + 1) * 10) * 10 ^ cs.length := Nat.mul_le_mul_right _ (by omega)
      _ = (m + 1) * 10 ^ (c :: cs).length := by rw [List.length_cons, Nat.pow_succ, Nat.mul_assoc, Nat.mul_comm 10]

/-- A number of few digits is small. -/
theorem gives_number (low high : Nat) : (number low high).Gives (· < 10 ^ high) := by
  intro cs n rest h
  rw [number, StateT.run_bind, StateT.run_get, pure_bind] at h
  generalize hdigits : (cs.take high).takeWhile (fun c => '0' ≤ c && c ≤ '9') = digits at h
  have hlength : digits.length ≤ high := by
    rw [← hdigits]
    exact Nat.le_trans (List.takeWhile_sublist _).length_le (List.length_take_le _ _)
  dsimp only at h
  split at h
  · cases h
  · cases hdecimal : Text.decimal? digits with
    | none =>
      rw [hdecimal] at h
      cases h
    | some k =>
      rw [hdecimal] at h
      obtain ⟨rfl, -⟩ := Prod.mk.inj (Option.some.inj h)
      rw [Text.decimal?] at hdecimal
      split at hdecimal
      · cases hdecimal
      · have hlt := foldlM_digits_lt hdecimal
        rw [Nat.zero_add, Nat.one_mul] at hlt
        exact Nat.lt_of_lt_of_le hlt (Nat.pow_le_pow_right (by decide) hlength)

theorem gives_build (year : Int) (month day hour minute second nanos : Nat) (offset : Int) :
    (build year month day hour minute second nanos offset).Gives fun t =>
      year - 1 ≤ t.date.year ∧ t.date.year ≤ year + 1 := by
  intro cs t rest h
  rw [build] at h
  split at h
  · cases h
  · rename_i date hdate
    have hyear : date.year = year := by
      rw [Date.ofFields?] at hdate
      split at hdate
      · obtain rfl := Option.some.inj hdate
        rfl
      · cases hdate
    split at h
    · cases hlocal : ofLocal? date hour minute second nanos offset with
      | none =>
        rw [hlocal] at h
        cases h
      | some u =>
        rw [hlocal] at h
        obtain ⟨rfl, -⟩ := Prod.mk.inj (Option.some.inj h)
        exact hyear ▸ year_ofLocal? hlocal
    · cases h

theorem gives_strict : strict.Gives InBounds := by
  have hyear {year month day hour minute second nanos : Nat} {offset : Int} (h : year < 10 ^ 4) :
      (build year month day hour minute second nanos offset).Gives InBounds := by
    intro cs t rest ht
    have hbuilt := gives_build _ _ _ _ _ _ _ _ cs t rest ht
    have hbound : yearBound = 262143 := rfl
    constructor <;> omega
  exact (gives_number 4 4).bind fun year h => .bind_any fun _ => .bind_any fun _ => .bind_any fun _ =>
    .bind_any fun _ => .bind_any fun _ => .bind_any fun _ => .bind_any fun _ => .bind_any fun _ =>
    .bind_any fun _ => .bind_any fun _ => .bind_any fun _ => .bind_any fun _ => hyear h

end Reader

/-- The strict reader does not leave the years that the relaxed one can name. -/
theorem inBounds_of_parse? {s : String} {t : Instant} (h : parse? s = some t) : t.InBounds := by
  rw [parse?, Reader.run] at h
  split at h
  · rename_i hrun
    obtain rfl := Option.some.inj h
    exact Reader.gives_strict _ _ _ hrun
  · cases h

/-! ## Reading the full text -/

namespace Reader

variable {n : Nat} {rest : List Char}

theorem run_blanks {cs : List Char} (h : ∀ c ∈ cs.head?, Text.isBlank c = false) :
    StateT.run blanks cs = some ((), cs) := by
  show some ((), cs.dropWhile Text.isBlank) = _
  rw [Text.dropWhile_eq_self h]

theorem isBlank_of_isDigit {c : Char} (h : Text.IsDigit c) : Text.isBlank c = false := by
  have hlow : 48 ≤ c.toNat := h.1
  have hhigh : c.toNat ≤ 57 := h.2
  simp [Text.isBlank]
  omega

/-- Digits begin with a digit. -/
theorem isDigit_of_mem_head? {width : Nat} {c : Char} (h : c ∈ ((padded width n).toList ++ rest).head?) :
    Text.IsDigit c := by
  have hne : (padded width n).toList ≠ [] := by simp [Text.toList_padded]
  rw [List.head?_append_of_ne_nil _ hne] at h
  exact Text.isDigit_of_mem_padded (List.mem_of_mem_head? h)

theorem run_blanks_padded {width : Nat} :
    StateT.run blanks ((padded width n).toList ++ rest) = some ((), (padded width n).toList ++ rest) :=
  run_blanks fun _ hc => isBlank_of_isDigit (isDigit_of_mem_head? hc)

theorem run_short (hn : n < 100) (hend : ∀ c ∈ rest.head?, ¬ Text.IsDigit c) :
    StateT.run short ((padded 2 n).toList ++ rest) = some (n, rest) := by
  have hlength : (padded 2 n).toList.length = 2 := Text.length_padded (by decide) hn
  rw [short, run_bind_of_run run_blanks_padded]
  exact run_number_padded 1 2 (by omega) (by omega) (.inr hend)

theorem run_spaced {c : Char} (hc : Text.isBlank c = false) :
    StateT.run (spaced c) (c :: rest) = some ((), rest) := by
  have hblanks : StateT.run blanks (c :: rest) = some ((), c :: rest) := run_blanks fun d hd => by
    obtain rfl := Option.mem_some_iff.mp hd
    exact hc
  rw [spaced, run_bind_of_run hblanks, run_char]

theorem length_padded_pos (width : Nat) : 1 ≤ (padded width n).toList.length := by
  rw [Nat.one_le_iff_ne_zero, ne_eq, List.length_eq_zero_iff]
  simp [Text.toList_padded]

/-- A year without a sign has at most four digits. -/
theorem run_signedYear_of_digit {cs : List Char} (hcs : ∀ c ∈ cs.head?, Text.IsDigit c)
    (h : StateT.run (number 1 4) cs = some (n, rest)) : StateT.run signedYear cs = some ((n : Int), rest) := by
  rw [signedYear, run_bind_of_run (run_blanks fun c hc => isBlank_of_isDigit (hcs c hc)), StateT.run_bind,
    StateT.run_get, pure_bind]
  split
  · rename_i hsign
    exact absurd (hcs '-' (by simp [show cs = _ from hsign])).1 (by decide)
  · rename_i hsign
    exact absurd (hcs '+' (by simp [show cs = _ from hsign])).1 (by decide)
  · rw [run_bind_of_run h]
    rfl

theorem run_signedYear_minus {cs : List Char} (h : StateT.run (number 1 cs.length) cs = some (n, rest)) :
    StateT.run signedYear ('-' :: cs) = some (-(n : Int), rest) := by
  have hblanks : StateT.run blanks ('-' :: cs) = some ((), '-' :: cs) := rfl
  rw [signedYear, run_bind_of_run hblanks, StateT.run_bind, StateT.run_get, pure_bind]
  simp only [StateT.run_bind, StateT.run_set, pure_bind, h]
  rfl

theorem run_signedYear_plus {cs : List Char} (h : StateT.run (number 1 cs.length) cs = some (n, rest)) :
    StateT.run signedYear ('+' :: cs) = some ((n : Int), rest) := by
  have hblanks : StateT.run blanks ('+' :: cs) = some ((), '+' :: cs) := rfl
  rw [signedYear, run_bind_of_run hblanks, StateT.run_bind, StateT.run_get, pure_bind]
  simp only [StateT.run_bind, StateT.run_set, pure_bind, h]
  rfl

/-- A year is read with the sign that it has. -/
theorem run_signedYear (year : Int) (hend : ∀ c ∈ rest.head?, ¬ Text.IsDigit c) :
    StateT.run signedYear ((yearText year).toList ++ rest) = some (year, rest) := by
  have hsigned : StateT.run (number 1 ((padded 4 year.natAbs).toList ++ rest).length)
      ((padded 4 year.natAbs).toList ++ rest) = some (year.natAbs, rest) :=
    run_number_padded 1 _ (length_padded_pos 4) (by simp) (.inr hend)
  by_cases hfour : 0 ≤ year ∧ year ≤ 9999
  · have htext : yearText year = padded 4 year.toNat := if_pos hfour
    have hlength : (padded 4 year.toNat).toList.length = 4 := Text.length_padded (by decide) (by omega)
    have hyear : ((year.toNat : Nat) : Int) = year := Int.toNat_of_nonneg hfour.1
    have hread := run_signedYear_of_digit (fun c => isDigit_of_mem_head?)
      (run_number_padded 1 4 (by omega) (Nat.le_of_eq hlength) (.inr hend))
    rw [htext, hread, hyear]
  · have htext : yearText year = (if year < 0 then "-" else "+") ++ padded 4 year.natAbs := if_neg hfour
    by_cases hnegative : year < 0
    · have hyear : -((year.natAbs : Nat) : Int) = year := by omega
      have hsign : "-".toList = ['-'] := rfl
      rw [htext, if_pos hnegative, String.toList_append, List.append_assoc, hsign, List.singleton_append,
        run_signedYear_minus hsigned, hyear]
    · have hyear : ((year.natAbs : Nat) : Int) = year := by omega
      have hsign : "+".toList = ['+'] := rfl
      rw [htext, if_neg hnegative, String.toList_append, List.append_assoc, hsign, List.singleton_append,
        run_signedYear_plus hsigned, hyear]

end Reader

/-- The fraction of the second in the full text of an instant. -/
def fractionText (t : Instant) : String :=
  if t.nanos = 0 then ""
  else if t.nanos % 1000000 = 0 then "." ++ Text.padded 3 (t.nanos / 1000000)
  else if t.nanos % 1000 = 0 then "." ++ Text.padded 6 (t.nanos / 1000)
  else "." ++ Text.padded 9 t.nanos

theorem toList_fullText (t : Instant) : t.fullText.toList =
    (yearText t.date.year).toList ++ '-' :: ((padded 2 t.date.month).toList ++
      '-' :: ((padded 2 t.date.day).toList ++ 'T' :: ((padded 2 t.hour).toList ++ ':' :: ((padded 2 t.minute).toList ++
        ':' :: ((padded 2 t.second).toList ++ (t.fractionText.toList ++ ['Z'])))))) := by
  have hfull : t.fullText = t.wholeText ++ t.fractionText ++ "Z" := rfl
  simp [hfull, wholeText]

/-- As many digits as were written make up the whole fraction. -/
theorem run_fractionText (t : Instant) :
    StateT.run Reader.fraction (t.fractionText.toList ++ ['Z']) = some (t.nanos, ['Z']) := by
  have hvalid := t.valid
  have hz : ∀ c ∈ ['Z'].head?, ¬ Text.IsDigit c := by simp [Text.IsDigit]
  have hread {width n : Nat} (hwidth : 0 < width) (hnine : width ≤ 9) (hn : n < 10 ^ width)
      (hnanos : n * 10 ^ (9 - width) = t.nanos) :
      StateT.run Reader.fraction (("." ++ Text.padded width n).toList ++ ['Z']) = some (t.nanos, ['Z']) := by
    have hpoint : ".".toList = ['.'] := rfl
    rw [String.toList_append, List.append_assoc, hpoint, List.singleton_append,
      Reader.run_fraction hwidth hnine hn hz, hnanos]
  unfold fractionText
  split
  · rename_i hnone
    rw [hnone]
    rfl
  split
  · exact hread (by decide) (by decide) (by omega) (by omega)
  split
  · exact hread (by decide) (by decide) (by omega) (by omega)
  · exact hread (by decide) (by decide) (by omega) (by omega)

/-- Neither a digit nor a blank comes first behind the seconds. -/
theorem not_isDigit_fractionText (t : Instant) : ∀ c ∈ (t.fractionText.toList ++ ['Z']).head?, ¬ Text.IsDigit c := by
  unfold fractionText
  split
  · simp [Text.IsDigit]
  split
  · simp [Text.IsDigit]
  split <;> simp [Text.IsDigit]

/-- The full text of an instant is read back as the instant. -/
theorem parseRelaxed?_fullText {t : Instant} (h : t.InBounds) : parseRelaxed? t.fullText = some t := by
  have hvalid := t.valid
  have hdate := t.date.valid
  have hdays := daysIn_le t.date.year t.date.month
  have hbetween : ∀ rest, StateT.run (discard (Reader.oneOf fun c => c == 'T' || c == 't' || c == ' ')) ('T' :: rest) =
      some ((), rest) := fun rest => Reader.run_discard_oneOf rfl
  have hblanks : StateT.run Reader.blanks ['Z'] = some ((), ['Z']) := rfl
  have hended : StateT.run Reader.blanks [] = some ((), []) := rfl
  have hutc : Text.sameIgnoringCase (String.ofList (['Z'].take 3)) "UTC" = false := by decide
  have hrelaxed : StateT.run Reader.relaxed t.fullText.toList = some (t, []) := by
    have hend {c : Char} (hc : ¬ ('0' ≤ c ∧ c ≤ '9')) (rest : List Char) : ∀ d ∈ (c :: rest).head?, ¬ Text.IsDigit d :=
      fun d hd => Option.mem_some_iff.mp hd ▸ hc
    rw [toList_fullText, Reader.relaxed,
      Reader.run_bind_of_run (Reader.run_signedYear _ (hend (by decide) _)),
      Reader.run_bind_of_run (Reader.run_spaced (by decide)),
      Reader.run_bind_of_run (Reader.run_short (by omega) (hend (by decide) _)),
      Reader.run_bind_of_run (Reader.run_spaced (by decide)),
      Reader.run_bind_of_run (Reader.run_short (by omega) (hend (by decide) _)),
      Reader.run_bind_of_run (hbetween _),
      Reader.run_bind_of_run (Reader.run_short (by omega) (hend (by decide) _)),
      Reader.run_bind_of_run (Reader.run_spaced (by decide)),
      Reader.run_bind_of_run (Reader.run_short (by omega) (hend (by decide) _)),
      Reader.run_bind_of_run (Reader.run_spaced (by decide)),
      Reader.run_bind_of_run (Reader.run_short (by omega) (not_isDigit_fractionText t)),
      Reader.run_bind_of_run (run_fractionText t), Reader.run_bind_of_run hblanks, StateT.run_bind, StateT.run_get,
      pure_bind]
    simp only [hutc, Bool.false_eq_true, if_false]
    rw [Reader.run_bind_of_run (Reader.run_offset _), Reader.run_bind_of_run hended,
      Reader.run_bind_of_run (Reader.run_build t), if_pos ⟨h.1, h.2, h.1, h.2⟩]
    rfl
  rw [parseRelaxed?, Reader.run, hrelaxed]

end Depot.Instant
