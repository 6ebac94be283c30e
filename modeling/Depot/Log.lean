import Depot.Config
import Depot.Json

/-!
# Messages about what goes on

A message has a level, a text and some named values. The configured level is a list of directives; the
one for the longest beginning of the program's name decides how severe a message has to be to be shown.
-/

namespace Depot

inductive Level where
  | error
  | warn
  | info
  deriving DecidableEq, Repr

namespace Level

def name : Level → String
  | error => "ERROR"
  | warn => "WARN"
  | info => "INFO"

/-- How far a filter has to be open for a level. -/
def rank : Level → Nat
  | error => 1
  | warn => 2
  | info => 3

end Level

structure Message where
  level : Level
  text : String
  values : List (String × String) := []
  deriving DecidableEq, Repr

namespace Message

/-- The name under which messages are written. -/
def source : String := "relaystore"

def line (m : Message) : String :=
  m.level.name ++ " " ++ source ++ ": " ++ m.text ++
    String.join (m.values.map fun v => " " ++ v.1 ++ "=" ++ v.2)

def json (m : Message) : String :=
  m.level.name ++ " " ++
    (Json.object (("message", .string m.text) :: m.values.map fun v => (v.1, .string v.2))).sorted.compact

end Message

namespace LogConfig

def isJson (c : LogConfig) : Bool := Text.sameIgnoringCase c.format "json"

/-- How far a named filter is open. -/
def openness? (s : String) : Option Nat :=
  let names := ["off", "error", "warn", "info", "debug", "trace"]
  match Text.unsigned? 6 s with
  | some n => some n
  | none => (names.zipIdx.find? fun e => Text.sameIgnoringCase e.1 s).map (·.2)

/-- A directive: the beginning of the names that it is for, and how far it opens the filter. -/
def directive? (s : String) : Option (String × Nat) :=
  match openness? s, Text.split '=' s with
  | some n, _ => some ("", n)
  | none, [target, level] => (openness? level).map (target, ·)
  | none, [target] => some (target, 5)
  | none, _ => none

/-- How far the filter is open for the messages of the program. -/
def openness (c : LogConfig) : Nat :=
  let directives := ((Text.split ',' c.level).filter (· ≠ "")).filterMap directive?
  if directives.isEmpty then Level.error.rank
  else
    let ours := directives.filter fun d => Message.source.startsWith d.1
    (ours.foldl (fun best d => if best.1 ≤ d.1.length then (d.1.length, d.2) else best) (0, 0)).2

def shows (c : LogConfig) (m : Message) : Bool := decide (m.level.rank ≤ c.openness)

def lines (c : LogConfig) (ms : List Message) : List String :=
  (ms.filter c.shows).map fun m => if c.isJson then m.json else m.line

end LogConfig

end Depot
