import Depot.Instant.Basic

/-!
# The date of a message

The text of an instant in the header of an answer: the day of the week, the date with the name of the
month, and the time of day in whole seconds.
-/

namespace Depot

def weekdayNames : List String := ["Mon", "Tue", "Wed", "Thu", "Fri", "Sat", "Sun"]

def monthNames : List String :=
  ["Jan", "Feb", "Mar", "Apr", "May", "Jun", "Jul", "Aug", "Sep", "Oct", "Nov", "Dec"]

namespace Date

/-- The number of days from the first of January of the year one. -/
def dayNumber (d : Date) : Int :=
  let y := d.year - 1
  365 * y + y / 4 - y / 100 + y / 400 +
    ((List.range (d.month - 1)).foldl (fun n m => n + daysIn d.year (m + 1)) (d.day - 1) : Nat)

/-- The day of the week, zero for Monday. -/
def weekday (d : Date) : Nat := (d.dayNumber % 7).toNat

end Date

namespace Instant

/-- The text of an instant in the header of an answer. -/
def messageText (t : Instant) : String :=
  weekdayNames.getD t.date.weekday "" ++ ", " ++ Text.padded 2 t.date.day ++ " " ++
    monthNames.getD (t.date.month - 1) "" ++ " " ++ Text.padded 4 t.date.year.toNat ++ " " ++
    Text.padded 2 t.hour ++ ":" ++ Text.padded 2 t.minute ++ ":" ++ Text.padded 2 t.second ++ " GMT"

end Instant

end Depot
