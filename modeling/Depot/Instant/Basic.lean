import Depot.Text

/-!
# Instants

A moment of coordinated universal time, as a date of the proleptic Gregorian calendar and a time of
day down to the nanosecond. A leap second is second sixty of its minute. Two texts of an instant are
used: with milliseconds, in headers and tables, and with as many digits as needed, in JSON.
-/

namespace Depot

def isLeapYear (year : Int) : Bool := year % 4 == 0 && (year % 100 != 0 || year % 400 == 0)

def daysIn (year : Int) (month : Nat) : Nat :=
  match month with
  | 2 => if isLeapYear year then 29 else 28
  | 4 | 6 | 9 | 11 => 30
  | _ => 31

theorem one_le_daysIn (year : Int) (month : Nat) : 1 ≤ daysIn year month := by
  unfold daysIn
  split <;> (try split) <;> omega

structure Date where
  year : Int
  month : Nat
  day : Nat
  valid : 1 ≤ month ∧ month ≤ 12 ∧ 1 ≤ day ∧ day ≤ daysIn year month
  deriving DecidableEq, Repr

namespace Date

/-- The day of the given year, month and day of the month, if there is one. -/
def ofFields? (year : Int) (month day : Nat) : Option Date :=
  if valid : 1 ≤ month ∧ month ≤ 12 ∧ 1 ≤ day ∧ day ≤ daysIn year month then
    some ⟨year, month, day, valid⟩
  else none

def next (d : Date) : Date :=
  if h : d.day < daysIn d.year d.month then
    ⟨d.year, d.month, d.day + 1, by have := d.valid; omega⟩
  else if hm : d.month < 12 then
    ⟨d.year, d.month + 1, 1, by have := d.valid; have := one_le_daysIn d.year (d.month + 1); omega⟩
  else ⟨d.year + 1, 1, 1, by have := one_le_daysIn (d.year + 1) 1; omega⟩

def previous (d : Date) : Date :=
  if h : 1 < d.day then
    ⟨d.year, d.month, d.day - 1, by have := d.valid; omega⟩
  else if hm : 1 < d.month then
    ⟨d.year, d.month - 1, daysIn d.year (d.month - 1), by
      have := d.valid
      have := one_le_daysIn d.year (d.month - 1)
      omega⟩
  else ⟨d.year - 1, 12, 31, by simp [daysIn]⟩

end Date

/-- A moment of coordinated universal time. -/
structure Instant where
  date : Date
  hour : Nat
  minute : Nat
  second : Nat
  nanos : Nat
  valid : hour < 24 ∧ minute < 60 ∧ second ≤ 60 ∧ nanos < 1000000000
  deriving DecidableEq, Repr

namespace Instant

/-- The fields of an instant, from the longest to the shortest. -/
def fields (t : Instant) : List Int :=
  [t.date.year, t.date.month, t.date.day, t.hour, t.minute, t.second, t.nanos]

def before (a b : Instant) : Bool := a.fields.lex b.fields

/-- The instant at which a clock that is `offset` minutes ahead shows the given date and time. -/
def ofLocal? (date : Date) (hour minute second nanos : Nat) (offset : Int) : Option Instant :=
  let minutes : Int := 60 * hour + minute - offset
  let (date, minutes) : Date × Nat :=
    if minutes < 0 then (date.previous, (minutes + 1440).toNat)
    else if minutes < 1440 then (date, minutes.toNat)
    else (date.next, (minutes - 1440).toNat)
  if valid : minutes / 60 < 24 ∧ minutes % 60 < 60 ∧ second ≤ 60 ∧ nanos < 1000000000 then
    some ⟨date, minutes / 60, minutes % 60, second, nanos, valid⟩
  else none

/-- The text of a year: four digits, or a sign and at least four. -/
def yearText (year : Int) : String :=
  if 0 ≤ year ∧ year ≤ 9999 then Text.padded 4 year.toNat
  else (if year < 0 then "-" else "+") ++ Text.padded 4 year.natAbs

/-- The text of an instant, without the fraction of the second and what follows it. -/
def wholeText (t : Instant) : String :=
  yearText t.date.year ++ "-" ++ Text.padded 2 t.date.month ++ "-" ++ Text.padded 2 t.date.day ++ "T" ++
    Text.padded 2 t.hour ++ ":" ++ Text.padded 2 t.minute ++ ":" ++ Text.padded 2 t.second

def millisText (t : Instant) : String :=
  t.wholeText ++ "." ++ Text.padded 3 (t.nanos / 1000000) ++ "Z"

/-- The text of an instant with none, three, six or nine digits of the second's fraction, whichever
suffice. -/
def fullText (t : Instant) : String :=
  let fraction :=
    if t.nanos = 0 then ""
    else if t.nanos % 1000000 = 0 then "." ++ Text.padded 3 (t.nanos / 1000000)
    else if t.nanos % 1000 = 0 then "." ++ Text.padded 6 (t.nanos / 1000)
    else "." ++ Text.padded 9 t.nanos
  t.wholeText ++ fraction ++ "Z"

end Instant

end Depot
