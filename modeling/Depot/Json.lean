import Depot.Text

/-!
# JSON values

Values and their compact text. Objects keep the order of their fields.
-/

namespace Depot

/-- A JSON value whose numbers are whole. -/
inductive Json where
  | null
  | bool (b : Bool)
  | number (n : Int)
  | string (s : String)
  | array (items : List Json)
  | object (fields : List (String × Json))
  deriving Repr

namespace Json

/-- The text of a character inside quotes. -/
def escape (c : Char) : List Char :=
  if c = '"' then ['\\', '"']
  else if c = '\\' then ['\\', '\\']
  else if c = '\n' then ['\\', 'n']
  else if c = '\r' then ['\\', 'r']
  else if c = '\t' then ['\\', 't']
  else if c.toNat = 8 then ['\\', 'b']
  else if c.toNat = 12 then ['\\', 'f']
  else if c.toNat < 32 then
    ['\\', 'u', '0', '0', Text.hexDigit (c.toNat / 16), Text.hexDigit (c.toNat % 16)]
  else [c]

def quote (s : String) : String := "\"" ++ String.ofList (s.toList.flatMap escape) ++ "\""

/-- The compact text of a value. -/
def compact : Json → String
  | null => "null"
  | bool b => if b then "true" else "false"
  | number n => toString n
  | string s => quote s
  | array items => "[" ++ ",".intercalate (items.attach.map fun ⟨i, _⟩ => compact i) ++ "]"
  | object fields =>
    "\x7b" ++ ",".intercalate (fields.attach.map fun ⟨f, _⟩ => quote f.1 ++ ":" ++ compact f.2) ++ "\x7d"
termination_by j => sizeOf j
decreasing_by
  · have := List.sizeOf_lt_of_mem ‹i ∈ items›
    simp
    omega
  · rename_i h
    have := List.sizeOf_lt_of_mem h
    cases f
    simp at *
    omega

/-- The object with its fields in the order of their names. -/
def sorted : Json → Json
  | object fields => object (fields.mergeSort fun a b => a.1 ≤ b.1)
  | j => j

end Json

end Depot
