import Depot.Instant.Reader
import Depot.Proofs.Header.Reading

/-!
# Instants as texts

The text of an instant with milliseconds is read back as the instant, cut to milliseconds, in the years of four
digits; that of any other year is not read at all.

## Main results

* `Instant.parse?_millisText` — what is read of the text of an instant.
* `Instant.millisText_of_parse?` — reading the text and writing it again changes nothing.
-/

namespace Depot.Instant

open Text (padded)

/-- Whether the year of an instant has four digits. -/
def InFourDigits (t : Instant) : Prop := 0 ≤ t.date.year ∧ t.date.year ≤ 9999

instance : DecidablePred InFourDigits := fun t =>
  inferInstanceAs (Decidable (0 ≤ t.date.year ∧ t.date.year ≤ 9999))

/-- The instant cut to milliseconds. -/
def toMillis (t : Instant) : Instant :=
  { t with nanos := t.nanos / 1000000 * 1000000, valid := by have := t.valid; omega }

theorem millisText_toMillis (t : Instant) : t.toMillis.millisText = t.millisText := by
  rw [millisText, millisText, toMillis, Nat.mul_div_cancel _ (by decide)]
  rfl

namespace Reader

variable {n width : Nat} {rest : List Char}

/-- A reader goes on where the one before it has left off. -/
theorem run_bind_of_run {α β : Type} {r : Reader α} {f : α → Reader β} {cs : List Char} {a : α}
    (h : StateT.run r cs = some (a, rest)) : StateT.run (r >>= f) cs = StateT.run (f a) rest := by
  rw [StateT.run_bind, h]
  rfl

theorem isDigit_of_mem_padded {c : Char} (h : c ∈ (padded width n).toList) : ('0' ≤ c && c ≤ '9') = true := by
  simpa [Text.IsDigit] using Text.isDigit_of_mem_padded h

/-- The digits of a number are taken up to where they end, or to as many as there may be. -/
theorem takeWhile_padded (high : Nat) (hhigh : (padded width n).toList.length ≤ high)
    (hend : (padded width n).toList.length = high ∨ ∀ c ∈ rest.head?, ¬ Text.IsDigit c) :
    (((padded width n).toList ++ rest).take high).takeWhile (fun c => '0' ≤ c && c ≤ '9') =
      (padded width n).toList := by
  rw [List.take_append, List.take_of_length_le hhigh, List.takeWhile_append_of_pos fun c => isDigit_of_mem_padded]
  have hnone : (rest.take (high - (padded width n).toList.length)).takeWhile
      (fun c => '0' ≤ c && c ≤ '9') = [] := by
    rcases hend with hend | hend
    · rw [hend, Nat.sub_self, List.take_zero, List.takeWhile_nil]
    · cases high - (padded width n).toList.length with
      | zero => rw [List.take_zero, List.takeWhile_nil]
      | succ k =>
        cases rest with
        | nil => rfl
        | cons c rest =>
          have hnot : ¬ ('0' ≤ c && c ≤ '9') = true := by simpa [Text.IsDigit] using hend c rfl
          rw [List.take_succ_cons]
          exact List.takeWhile_cons_of_neg hnot
  rw [hnone, List.append_nil]

/-- A number is read of its digits. -/
theorem run_number_padded (low high : Nat) (hlow : low ≤ (padded width n).toList.length)
    (hhigh : (padded width n).toList.length ≤ high)
    (hend : (padded width n).toList.length = high ∨ ∀ c ∈ rest.head?, ¬ Text.IsDigit c) :
    StateT.run (number low high) ((padded width n).toList ++ rest) = some (n, rest) := by
  rw [number, StateT.run_bind, StateT.run_get, pure_bind]
  simp only [takeWhile_padded high hhigh hend, if_neg (Nat.not_lt.mpr hlow), StateT.run_bind, StateT.run_set, pure_bind,
    Text.decimal?_padded, Option.elim_some, StateT.run_pure, List.drop_left]
  rfl

theorem run_number (hwidth : 0 < width) (hn : n < 10 ^ width) :
    StateT.run (number width width) ((padded width n).toList ++ rest) = some (n, rest) := by
  have hlength := Text.length_padded hwidth hn
  exact run_number_padded width width (Nat.le_of_eq hlength.symm) (Nat.le_of_eq hlength) (.inl hlength)

theorem run_discard_oneOf {p : Char → Bool} {c : Char} (h : p c = true) :
    StateT.run (discard (oneOf p)) (c :: rest) = some ((), rest) := by
  have hone : StateT.run (oneOf p) (c :: rest) = some (c, rest) := by
    rw [oneOf, StateT.run_bind, StateT.run_get, pure_bind]
    simp only [h, if_true]
    rfl
  show (StateT.run (oneOf p) (c :: rest) >>= fun x => some ((), x.2)) = _
  rw [hone]
  rfl

theorem run_char (c : Char) : StateT.run (char c) (c :: rest) = some ((), rest) :=
  run_discard_oneOf (beq_self_eq_true c)

/-- A fraction of a second is taken as nanoseconds. -/
theorem run_fraction (hwidth : 0 < width) (hnine : width ≤ 9) (hn : n < 10 ^ width)
    (hend : ∀ c ∈ rest.head?, ¬ Text.IsDigit c) :
    StateT.run fraction ('.' :: ((padded width n).toList ++ rest)) = some (n * 10 ^ (9 - width), rest) := by
  have hlength : (padded width n).toList.length = width := Text.length_padded hwidth hn
  have hdigits := takeWhile_padded 9 (hlength.symm ▸ hnine) (.inr hend)
  have hnumber := run_number_padded 1 9 (hlength.symm ▸ hwidth) (hlength.symm ▸ hnine) (.inr hend)
  have hrest : rest.dropWhile (fun c => '0' ≤ c && c ≤ '9') = rest :=
    Text.dropWhile_eq_self fun c hc => by simpa [Text.IsDigit] using hend c hc
  rw [fraction, StateT.run_bind, StateT.run_get, pure_bind]
  simp only [StateT.run_bind, StateT.run_set, StateT.run_get, pure_bind, hnumber, hdigits, hlength]
  show some (n * 10 ^ (9 - width), rest.dropWhile _) = _
  rw [hrest]

theorem run_offset (between : Reader Unit) : StateT.run (offset between) ('Z' :: rest) = some (0, rest) := rfl

/-- A number does not begin with anything but a digit. -/
theorem run_number_of_not_digit {c : Char} (hwidth : 0 < width) (hc : ¬ Text.IsDigit c) :
    StateT.run (number width width) (c :: rest) = none := by
  obtain ⟨width, rfl⟩ := Nat.exists_eq_add_one_of_ne_zero (Nat.ne_of_gt hwidth)
  have hnone : ¬ ('0' ≤ c && c ≤ '9') = true := by simpa [Text.IsDigit] using hc
  have hdigits : ((c :: rest).take (width + 1)).takeWhile (fun c => '0' ≤ c && c ≤ '9') = [] := by
    rw [List.take_succ_cons]
    exact List.takeWhile_cons_of_neg hnone
  rw [number, StateT.run_bind, StateT.run_get, pure_bind]
  simp only [hdigits, List.length_nil, Nat.zero_lt_succ, if_true]
  rfl

/-- Building an instant of universal time. -/
theorem run_build (t : Instant) : StateT.run (build t.date.year t.date.month t.date.day t.hour t.minute t.second
    t.nanos 0) rest = some (t, rest) := by
  have hvalid := t.valid
  have hdate : Date.ofFields? t.date.year t.date.month t.date.day = some t.date := dif_pos t.date.valid
  have hlocal : ofLocal? t.date t.hour t.minute t.second t.nanos 0 = some t := by
    have hminutes : ((60 * t.hour + t.minute - 0 : Int)).toNat = 60 * t.hour + t.minute := by omega
    have hhour : (60 * t.hour + t.minute) / 60 = t.hour := by omega
    have hminute : (60 * t.hour + t.minute) % 60 = t.minute := by omega
    rw [ofLocal?]
    simp only [if_neg (show ¬ ((60 * t.hour + t.minute - 0 : Int) < 0) by omega),
      if_pos (show (60 * t.hour + t.minute - 0 : Int) < 1440 by omega), hminutes, hhour, hminute]
    rw [dif_pos hvalid]
  rw [build, hdate]
  simp only [hvalid.1, hvalid.2.1, and_self, if_true, hlocal]
  rfl

end Reader

theorem toList_millisText {t : Instant} (h : t.InFourDigits) : t.millisText.toList =
    (padded 4 t.date.year.toNat).toList ++ '-' :: ((padded 2 t.date.month).toList ++
      '-' :: ((padded 2 t.date.day).toList ++ 'T' :: ((padded 2 t.hour).toList ++ ':' :: ((padded 2 t.minute).toList ++
        ':' :: ((padded 2 t.second).toList ++ '.' :: ((padded 3 (t.nanos / 1000000)).toList ++ ['Z'])))))) := by
  have hyear : yearText t.date.year = padded 4 t.date.year.toNat := if_pos h
  simp [millisText, wholeText, hyear]

theorem daysIn_le (year : Int) (month : Nat) : daysIn year month ≤ 31 := by
  unfold daysIn
  split <;> (try split) <;> omega

theorem parse?_of_inFourDigits {t : Instant} (h : t.InFourDigits) : parse? t.millisText = some t.toMillis := by
  have hvalid := t.valid
  have hdate := t.date.valid
  have hdays := daysIn_le t.date.year t.date.month
  have hyear : ((t.date.year.toNat : Nat) : Int) = t.date.year := Int.toNat_of_nonneg h.1
  have hfour : t.date.year.toNat < 10 ^ 4 := by
    have := h.2
    omega
  -- the separator of date and time
  have hbetween : ∀ rest, StateT.run (discard (Reader.oneOf fun c => c == 'T' || c == 't' || c == ' ')) ('T' :: rest) =
      some ((), rest) := fun rest => Reader.run_discard_oneOf rfl
  have hstrict : StateT.run Reader.strict t.millisText.toList = some (t.toMillis, []) := by
    have htwo {n : Nat} (hn : n < 100) (rest : List Char) :
        StateT.run (Reader.number 2 2) ((padded 2 n).toList ++ rest) = some (n, rest) :=
      Reader.run_number (by decide) hn
    rw [toList_millisText h, Reader.strict, Reader.run_bind_of_run (Reader.run_number (by decide) hfour),
      Reader.run_bind_of_run (Reader.run_char _), Reader.run_bind_of_run (htwo (by omega) _),
      Reader.run_bind_of_run (Reader.run_char _), Reader.run_bind_of_run (htwo (by omega) _),
      Reader.run_bind_of_run (hbetween _), Reader.run_bind_of_run (htwo (by omega) _),
      Reader.run_bind_of_run (Reader.run_char _), Reader.run_bind_of_run (htwo (by omega) _),
      Reader.run_bind_of_run (Reader.run_char _), Reader.run_bind_of_run (htwo (by omega) _),
      Reader.run_bind_of_run (Reader.run_fraction (by decide) (by decide) (by omega) (by simp [Text.IsDigit])),
      Reader.run_bind_of_run (Reader.run_offset _), hyear]
    exact Reader.run_build t.toMillis
  rw [parse?, Reader.run, hstrict]

theorem parse?_of_not_inFourDigits {t : Instant} (h : ¬ t.InFourDigits) : parse? t.millisText = none := by
  -- the text begins with the sign of the year
  obtain ⟨sign, rest, hsign, htext⟩ : ∃ sign rest, ¬ Text.IsDigit sign ∧ t.millisText.toList = sign :: rest := by
    have hyear : yearText t.date.year = (if t.date.year < 0 then "-" else "+") ++ padded 4 t.date.year.natAbs :=
      if_neg h
    by_cases hnegative : t.date.year < 0
    · rw [if_pos hnegative] at hyear
      exact ⟨'-', _, by simp [Text.IsDigit], by simp [millisText, wholeText, hyear]; rfl⟩
    · rw [if_neg hnegative] at hyear
      exact ⟨'+', _, by simp [Text.IsDigit], by simp [millisText, wholeText, hyear]; rfl⟩
  have hstrict : StateT.run Reader.strict t.millisText.toList = none := by
    rw [htext, Reader.strict, StateT.run_bind, Reader.run_number_of_not_digit (by decide) hsign]
    rfl
  rw [parse?, Reader.run, hstrict]

/-- What is read of the text of an instant. -/
theorem parse?_millisText (t : Instant) : parse? t.millisText = if t.InFourDigits then some t.toMillis else none := by
  split
  · exact parse?_of_inFourDigits (by assumption)
  · exact parse?_of_not_inFourDigits (by assumption)

/-- Reading the text of an instant and writing it again changes nothing. -/
theorem millisText_of_parse? {t u : Instant} (h : parse? t.millisText = some u) : u.millisText = t.millisText := by
  rw [parse?_millisText] at h
  split at h
  · obtain rfl := Option.some.inj h
    exact t.millisText_toMillis
  · cases h

/-! ## The text as the value of a header -/

open Headers (IsWord)

theorem isWord_padded (width n : Nat) : IsWord (padded width n) :=
  Headers.isWord_of_digits fun _ hc => Text.isDigit_of_mem_padded hc

theorem isWord_yearText (year : Int) : IsWord (yearText year) := by
  unfold yearText
  split
  · exact isWord_padded 4 _
  · refine Headers.isWord_append.mpr ⟨?_, isWord_padded 4 _⟩
    split <;> decide

theorem isWord_millisText (t : Instant) : IsWord t.millisText := by
  have hliteral : IsWord "-" ∧ IsWord "T" ∧ IsWord ":" ∧ IsWord "." ∧ IsWord "Z" := by decide
  simp only [millisText, wholeText, Headers.isWord_append, isWord_padded 2, isWord_padded 3, isWord_yearText,
    hliteral, and_self]

theorem millisText_ne_empty (t : Instant) : t.millisText ≠ "" := by simp [millisText]

end Depot.Instant
