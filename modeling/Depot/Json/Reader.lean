import Depot.Json

/-!
# Reading JSON of a known shape

Readers take a text character by character and stop at the first fault, so a text with two faults is
refused for the one in front. A fault is malformed text, a text that ends too early, or a value that
is not of the wanted shape.
-/

namespace Depot.Json

inductive Fault where
  | malformed
  | truncated
  | mistyped
  deriving DecidableEq, Repr

/-- A reader of a prefix of a text. -/
abbrev Reader (α : Type) := StateT (List Char) (Except Fault) α

namespace Reader

def fail {α : Type} (f : Fault) : Reader α := throw f

/-- Blanks between values. -/
def isSpace (c : Char) : Bool := c == ' ' || c == '\n' || c == '\t' || c == '\r'

/-- The next character that is not blank, left in place. -/
def peek : Reader (Option Char) := do
  modify (·.dropWhile isSpace)
  return (← get).head?

def advance : Reader Unit := modify (·.drop 1)

/-- Take the rest of a literal, its first letter included. -/
def literal (s : String) : Reader Unit :=
  let rec go : List Char → Reader Unit
    | [] => return ()
    | c :: rest => do
      match ← get with
      | [] => fail .truncated
      | d :: more => if c = d then set more; go rest else fail .malformed
  go s.toList

/-- The value of four hexadecimal digits, which take four bytes. -/
def hex4 : Reader Nat := do
  let cs ← get
  match (cs.take 4).map Text.hexDigit? with
  | [some a, some b, some c, some d] => set (cs.drop 4); return ((a * 16 + b) * 16 + c) * 16 + d
  | _ => fail (if (cs.take 4).foldl (fun n c => n + c.utf8Size) 0 < 4 then .truncated else .malformed)

/-- The character behind a backslash and a `u`; two surrogates make one. -/
def unicodeEscape : Reader Char := do
  let n ← hex4
  if 0xDC00 ≤ n ∧ n ≤ 0xDFFF then fail .malformed
  else if 0xD800 ≤ n ∧ n ≤ 0xDBFF then
    match ← get with
    | '\\' :: 'u' :: rest =>
      set rest
      let low ← hex4
      if 0xDC00 ≤ low ∧ low ≤ 0xDFFF then
        return Char.ofNat (0x10000 + (n - 0xD800) * 0x400 + (low - 0xDC00))
      else fail .malformed
    | [] | ['\\'] => fail .truncated
    | _ => fail .malformed
  else return Char.ofNat n

/-- The character behind a backslash; where the text is only passed over, surrogates may stand
alone. -/
def escaped (skipping : Bool) : Reader Char := do
  match ← get with
  | [] => fail .truncated
  | c :: rest =>
    set rest
    match c with
    | '"' => return '"'
    | '\\' => return '\\'
    | '/' => return '/'
    | 'b' => return Char.ofNat 8
    | 'f' => return Char.ofNat 12
    | 'n' => return '\n'
    | 'r' => return '\r'
    | 't' => return '\t'
    | 'u' => if skipping then do discard hex4; return 'u' else unicodeEscape
    | _ => fail .malformed

/-- The contents of a text behind its opening quote; `fuel` bounds their number. -/
def quoted (skipping : Bool) : Nat → List Char → Reader String
  | 0, _ => fail .truncated
  | fuel + 1, acc => do
    match ← get with
    | [] => fail .truncated
    | '"' :: rest => set rest; return String.ofList acc.reverse
    | '\\' :: rest => set rest; quoted skipping fuel ((← escaped skipping) :: acc)
    | c :: rest => if c.toNat < 32 then fail .malformed else set rest; quoted skipping fuel (c :: acc)

/-- A text, its opening quote being next. -/
def stringBody : Reader String := do
  advance
  quoted false ((← get).length + 1) []

def skipString : Reader String := do
  advance
  quoted true ((← get).length + 1) []

def digits : Reader (List Char) := do
  let ds := (← get).takeWhile Char.isDigit
  modify (·.dropWhile Char.isDigit)
  return ds

def someDigits : Reader (List Char) := do
  match ← get with
  | [] => fail .truncated
  | c :: _ => if c.isDigit then digits else fail .malformed

/-- A number as it is written: its digits before and behind the point, and its exponent. -/
structure Number where
  negative : Bool
  whole : List Char
  fraction : Option (List Char) := none
  exponent : Option Int := none

namespace Number

/-- The value of a number without sign, point or exponent. -/
def natural? (n : Number) : Option Nat :=
  if n.negative || n.fraction.isSome || n.exponent.isSome then none else Text.decimal? n.whole

/-- Whether the number exceeds what a binary floating-point number of sixty-four bits can hold. -/
def isHuge (n : Number) : Bool :=
  let fraction := n.fraction.getD []
  let value := (Text.decimal? (n.whole ++ fraction)).getD 0
  let shift : Int := n.exponent.getD 0 - fraction.length
  let limit := (1 <<< 1024) - (1 <<< 970)
  value != 0 &&
    (if 0 ≤ shift then shift > 308 || value * Nat.pow 10 shift.toNat ≥ limit
     else value.log2 ≥ 1023 && shift > -(n.whole.length + fraction.length : Nat) &&
      value ≥ limit * Nat.pow 10 (-shift).toNat)

end Number

def numberBody (negative : Bool) : Reader Number := do
  let whole ← match ← get with
    | [] => fail .truncated
    | '0' :: rest =>
      match rest with
      | c :: _ => if c.isDigit then fail .malformed else set rest; pure ['0']
      | [] => set rest; pure ['0']
    | c :: _ => if c.isDigit then digits else fail .malformed
  let fraction ← match ← get with
    | '.' :: rest => set rest; some <$> someDigits
    | _ => pure none
  let exponent ← match ← get with
    | c :: rest =>
      if c = 'e' ∨ c = 'E' then
        let down := rest.head? == some '-'
        set (if down || rest.head? == some '+' then rest.drop 1 else rest)
        let n : Int := (Text.decimal? (← someDigits)).getD 0
        pure (some (if down then -n else n))
      else pure none
    | [] => pure none
  return ⟨negative, whole, fraction, exponent⟩

def boundedNumber (negative : Bool) : Reader Number := do
  let n ← numberBody negative
  if n.isHuge then fail .malformed else return n

/-- Refuse a value that is not of the wanted shape; a scalar is read first, and refused as
malformed where it is. -/
def mistyped {α : Type} (c : Char) : Reader α := do
  match c with
  | 'n' => literal "null"
  | 't' => literal "true"
  | 'f' => literal "false"
  | '"' => discard stringBody
  | '-' => advance; discard (boundedNumber true)
  | '[' | '\x7b' => pure ()
  | c => if c.isDigit then discard (boundedNumber false) else fail .malformed
  fail .mistyped

def string : Reader String := do
  match ← peek with
  | none => fail .truncated
  | some '"' => stringBody
  | some c => mistyped c

def natural (bound : Nat) : Reader Nat := do
  match ← peek with
  | none => fail .truncated
  | some c =>
    if c.isDigit then
      match (← boundedNumber false).natural? with
      | some n => if n < bound then return n else fail .mistyped
      | none => fail .mistyped
    else mistyped c

/-- A value, or nothing where the text says so. -/
def optional {α : Type} (r : Reader α) : Reader (Option α) := do
  match ← peek with
  | some 'n' => literal "null"; return none
  | _ => some <$> r

def colon : Reader Unit := do
  match ← peek with
  | some ':' => advance
  | some _ => fail .malformed
  | none => fail .truncated

/-- The next field name of an object, or nothing at its end, which is left in place; `text` reads
the name. -/
def fieldName? (text : Reader String) (first : Bool) : Reader (Option String) := do
  match ← peek with
  | none => fail .truncated
  | some '\x7d' => return none
  | some c =>
    if first then
      if c = '"' then some <$> text else fail .malformed
    else if c = ',' then
      advance
      match ← peek with
      | some '"' => some <$> text
      | some _ => fail .malformed
      | none => fail .truncated
    else fail .malformed

/-- Whether an array has a further item, which is then next. -/
def hasItem (first : Bool) : Reader Bool := do
  match ← peek with
  | none => fail .truncated
  | some ']' => return false
  | some c =>
    if first then return true
    else if c = ',' then
      advance
      match ← peek with
      | some ']' => fail .malformed
      | some _ => return true
      | none => fail .truncated
    else fail .malformed

/-- Fields until the end of an object; `text` reads a name and `step` the value behind it. -/
def fields {σ : Type} (text : Reader String) (step : String → σ → Reader σ) : Nat → Bool → σ → Reader σ
  | 0, _, _ => fail .truncated
  | fuel + 1, first, state => do
    match ← fieldName? text first with
    | none => return state
    | some name => fields text step fuel false (← step name state)

/-- Pass over a value of any shape. -/
def skip : Nat → Reader Unit
  | 0 => fail .truncated
  | fuel + 1 => do
    match ← peek with
    | none => fail .truncated
    | some 'n' => literal "null"
    | some 't' => literal "true"
    | some 'f' => literal "false"
    | some '"' => discard skipString
    | some '-' => advance; discard (numberBody true)
    | some '[' =>
      advance
      let rec items : Nat → Bool → Reader Unit
        | 0, _ => fail .truncated
        | n + 1, first => do
          if ← hasItem first then
            skip fuel
            items n false
      items ((← get).length + 1) true
      advance
    | some '\x7b' =>
      advance
      fields skipString (fun _ _ => do colon; skip fuel) ((← get).length + 1) true ()
      advance
    | some c => if c.isDigit then discard (numberBody false) else fail .malformed

def skipValue : Reader Unit := do skip ((← get).length + 1)

/-- An object from texts to texts; a later field replaces an earlier one. -/
def stringMap : Reader (List (String × String)) := do
  match ← peek with
  | none => fail .truncated
  | some '\x7b' =>
    advance
    let entries ← fields stringBody (fun name acc => do
      colon
      return acc.filter (·.1 != name) ++ [(name, ← string)]) ((← get).length + 1) true []
    advance
    return entries
  | some c => mistyped c

def run {α : Type} (r : Reader α) (s : String) : Except Fault α := do
  let (a, rest) ← StateT.run r s.toList
  if rest.all isSpace then return a else throw .malformed

def fieldNames (s : String) : Option (List String) :=
  let names : Reader (List String) := do
    if (← peek) != some '\x7b' then fail .mistyped
    advance
    let names ← fields stringBody (fun name acc => do
      colon
      skipValue
      return acc ++ [name]) ((← get).length + 1) true []
    advance
    return names
  (names.run s).toOption

end Reader

end Depot.Json
