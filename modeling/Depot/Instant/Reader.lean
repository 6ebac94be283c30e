import Depot.Instant.Basic

/-!
# Reading instants

Two forms of a date and time are read. The strict one has fields of fixed width, separators without
blanks, and an offset or a `Z`. The relaxed one also takes shorter fields, blanks around separators,
signed years of any length, and `UTC` for the offset.
-/

namespace Depot.Instant

/-- A reader of a prefix of a text, which may refuse it. -/
abbrev Reader (α : Type) := StateT (List Char) Option α

namespace Reader

def refuse {α : Type} : Reader α := failure

def oneOf (p : Char → Bool) : Reader Char := do
  match ← get with
  | c :: rest => if p c then set rest; return c else refuse
  | [] => refuse

def char (c : Char) : Reader Unit := discard (oneOf (· == c))

/-- Take a number of at least `low` and at most `high` digits. -/
def number (low high : Nat) : Reader Nat := do
  let cs ← get
  let digits := (cs.take high).takeWhile fun c => '0' ≤ c && c ≤ '9'
  if digits.length < low then refuse
  else
    set (cs.drop digits.length)
    (Text.decimal? digits).elim refuse pure

/-- Take the fraction of a second, in nanoseconds, if there is one; digits beyond the ninth do not
count. -/
def fraction : Reader Nat := do
  match ← get with
  | '.' :: rest =>
    set rest
    let digits := ((← get).take 9).takeWhile fun c => '0' ≤ c && c ≤ '9'
    let n ← number 1 9
    modify (·.dropWhile fun c => '0' ≤ c && c ≤ '9')
    return n * Nat.pow 10 (9 - digits.length)
  | _ => return 0

def blanks : Reader Unit := modify (·.dropWhile Text.isBlank)

/-- Take an offset from universal time, in minutes; `between` stands between its hours and its
minutes. -/
def offset (between : Reader Unit) : Reader Int := do
  match ← get with
  | 'Z' :: rest | 'z' :: rest => set rest; return 0
  | sign :: rest =>
    if sign = '+' ∨ sign = '-' ∨ sign = Char.ofNat 0x2212 then
      set rest
      let hours ← number 2 2
      between
      let minutes ← number 2 2
      if hours < 24 ∧ minutes < 60 then
        let total : Int := 60 * hours + minutes
        return if sign = '+' then total else -total
      else refuse
    else refuse
  | [] => refuse

def build (year : Int) (month day hour minute second nanos : Nat) (offset : Int) :
    Reader Instant := do
  match Date.ofFields? year month day with
  | none => refuse
  | some date =>
    if hour < 24 ∧ minute < 60 then
      (ofLocal? date hour minute second nanos offset).elim refuse pure
    else refuse

/-- The strict form. -/
def strict : Reader Instant := do
  let year ← number 4 4
  char '-'
  let month ← number 2 2
  char '-'
  let day ← number 2 2
  discard (oneOf fun c => c == 'T' || c == 't' || c == ' ')
  let hour ← number 2 2
  char ':'
  let minute ← number 2 2
  char ':'
  let second ← number 2 2
  let nanos ← fraction
  let offset ← offset (char ':')
  build year month day hour minute second nanos offset

/-- A year, with or without a sign; only a signed one may have more than four digits. -/
def signedYear : Reader Int := do
  blanks
  match ← get with
  | '-' :: rest => set rest; return -(← number 1 rest.length)
  | '+' :: rest => set rest; return (← number 1 rest.length)
  | _ => return (← number 1 4)

/-- A field of one or two digits behind blanks. -/
def short : Reader Nat := do blanks; number 1 2

/-- A separator behind blanks. -/
def spaced (c : Char) : Reader Unit := do blanks; char c

/-- The years that the relaxed form can name. -/
def yearBound : Int := 262143

/-- The relaxed form. -/
def relaxed : Reader Instant := do
  let year ← signedYear
  spaced '-'
  let month ← short
  spaced '-'
  let day ← short
  discard (oneOf fun c => c == 'T' || c == 't' || c == ' ')
  let hour ← short
  spaced ':'
  let minute ← short
  spaced ':'
  let second ← short
  let nanos ← fraction
  blanks
  let rest ← get
  let offset ←
    if Text.sameIgnoringCase (String.ofList (rest.take 3)) "UTC" then do
      set (rest.drop 3)
      pure 0
    else offset (modify (·.dropWhile fun c => c == ':' || Text.isBlank c))
  blanks
  let t ← build year month day hour minute second nanos offset
  if -yearBound ≤ year ∧ year < yearBound ∧ -yearBound ≤ t.date.year ∧ t.date.year < yearBound then
    return t
  else refuse

def run (r : Reader Instant) (s : String) : Option Instant :=
  match StateT.run r s.toList with
  | some (t, []) => some t
  | _ => none

end Reader

def parse? (s : String) : Option Instant := Reader.strict.run s

def parseRelaxed? (s : String) : Option Instant := Reader.relaxed.run s

end Depot.Instant
