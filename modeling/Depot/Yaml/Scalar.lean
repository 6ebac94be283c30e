import Depot.Text
import Depot.Yaml.Cursor

/-!
# Scalars

The text of a scalar in its five styles. Lines of plain and quoted scalars are folded: a single break
reads as a space, and of several breaks the first one is dropped. Block scalars keep their breaks or
fold them, and their last breaks are kept or dropped as their header says.
-/

namespace Depot.Yaml

/-- How a scalar is written. -/
inductive Style where
  | plain
  | single
  | double
  | literal
  | folded
  deriving DecidableEq, Repr

/-- What separates two words of a scalar. -/
structure Gap where
  /-- Blanks before the first break. -/
  blanks : List Char := []
  isBroken : Bool := false
  first : List Char := []
  /-- The breaks after it. -/
  more : List Char := []
  deriving DecidableEq, Repr

namespace Gap

def folded (g : Gap) : List Char :=
  if g.first = ['\n'] then (if g.more.isEmpty then [' '] else g.more) else g.first ++ g.more

def text (g : Gap) : List Char := if g.isBroken then g.folded else g.blanks

/-- Read a gap. Tabs at the beginning of a line are a fault before the column `indent`. -/
def read (indent : Nat) (since : Mark) : Nat → Gap → Cursor → Except Fault (Gap × Cursor)
  | 0, g, c => .ok (g, c)
  | fuel + 1, g, c =>
    match c.peek 0 with
    | none => .ok (g, c)
    | some x =>
      if isSpace x then
        if g.isBroken then
          if x = '\t' ∧ c.mark.column < indent then
            .error (c.fault .tabBeforeText .plainScalar since)
          else read indent since fuel g (c.skip 1)
        else read indent since fuel { g with blanks := g.blanks ++ [x] } (c.skip 1)
      else if isBreak x then
        let g := if g.isBroken then { g with more := g.more ++ c.breakText }
          else { g with blanks := [], isBroken := true, first := c.breakText }
        read indent since fuel g c.skipBreak
      else .ok (g, c)

end Gap

namespace Scalar

/-! ## Plain scalars -/

/-- The longest word at the beginning of a text, and whether a stray colon ends it. -/
def plainWord (inFlow : Bool) : List Char → List Char × Bool
  | [] => ([], false)
  | x :: rest =>
    if isGap x then ([], false)
    else if inFlow && x == ':' && rest.head?.any fun y => ",?[]".toList.contains y || y == '\x7b' ||
        y == '\x7d' then ([], true)
    else if (x == ':' && rest.head?.all isGap) || (inFlow && (",[]".toList.contains x || x == '\x7b' ||
        x == '\x7d')) then ([], false)
    else
      let (word, stray) := plainWord inFlow rest
      (x :: word, stray)

/-- Read the words of a plain scalar; the flag says whether lines ended after the last one. -/
def plainLoop (inFlow : Bool) (indent : Nat) (since : Mark) :
    Nat → List Char → Gap → Cursor → Except Fault ((List Char × Bool) × Cursor)
  | 0, text, g, c => .ok ((text, g.isBroken), c)
  | fuel + 1, text, g, c =>
    if c.atDocument || c.sees '#' 0 then .ok ((text, g.isBroken), c)
    else
      let (word, stray) := plainWord inFlow c.rest
      let (text, g) : List Char × Gap :=
        if word.isEmpty then (text, g) else (text ++ g.text ++ word, {})
      let c := c.skip word.length
      if stray then .error (c.fault .unexpectedColon .plainScalar since)
      else if !(c.peek 0).any isGap then .ok ((text, g.isBroken), c)
      else match g.read indent since c.fuel c with
        | .error e => .error e
        | .ok (g, c) =>
          if !inFlow && decide (c.mark.column < indent) then .ok ((text, g.isBroken), c)
          else plainLoop inFlow indent since fuel text g c

/-- Read a plain scalar whose further lines stand at the column `indent` or after it. -/
def plain (inFlow : Bool) (indent : Nat) (c : Cursor) :
    Except Fault ((List Char × Bool) × Cursor) :=
  plainLoop inFlow indent c.mark c.fuel [] {} c

/-! ## Quoted scalars -/

/-- The character that a one-letter escape stands for. -/
def escaped? (x : Char) : Option Char :=
  [('0', 0), ('a', 7), ('b', 8), ('t', 9), ('\t', 9), ('n', 10), ('v', 11), ('f', 12), ('r', 13),
    ('e', 27), (' ', 0x20), ('"', 0x22), ('/', 0x2F), ('\\', 0x5C), ('N', 0x85), ('_', 0xA0),
    ('L', 0x2028), ('P', 0x2029)].lookup x |>.map Char.ofNat

/-- How many hexadecimal digits follow the letter of an escape. -/
def escapeDigits? (x : Char) : Option Nat := [('x', 2), ('u', 4), ('U', 8)].lookup x

def escape (since : Mark) (c : Cursor) : Except Fault (Char × Cursor) :=
  match c.peek 1 with
  | none => .error (c.fault .unknownEscape .escape since)
  | some x =>
    match escaped? x, escapeDigits? x with
    | some y, _ => .ok (y, c.skip 2)
    | none, none => .error (c.fault .unknownEscape .escape since)
    | none, some n =>
      let c := c.skip 2
      let digits := (c.rest.take n).filterMap Text.hexDigit?
      if digits.length < n then .error (c.fault .missingHexDigit .escape since)
      else
        let value := digits.foldl (fun v d => 16 * v + d) 0
        if (0xD800 ≤ value ∧ value ≤ 0xDFFF) ∨ 0x10FFFF < value then
          .error (c.fault .badCodePoint .escape since)
        else .ok (Char.ofNat value, c.skip n)

/-- Read a word of a quoted scalar; the flag says whether an escaped break ends it. -/
def quotedWord (isSingle : Bool) (since : Mark) :
    Nat → List Char → Cursor → Except Fault ((List Char × Bool) × Cursor)
  | 0, word, c => .ok ((word, false), c)
  | fuel + 1, word, c =>
    match c.peek 0 with
    | none => .ok ((word, false), c)
    | some x =>
      if isGap x then .ok ((word, false), c)
      else if isSingle then
        if x ≠ '\'' then quotedWord isSingle since fuel (word ++ [x]) (c.skip 1)
        else if c.sees '\'' 1 then quotedWord isSingle since fuel (word ++ ['\'']) (c.skip 2)
        else .ok ((word, false), c)
      else if x = '"' then .ok ((word, false), c)
      else if x ≠ '\\' then quotedWord isSingle since fuel (word ++ [x]) (c.skip 1)
      else if (c.peek 1).any isBreak then .ok ((word, true), (c.skip 1).skipBreak)
      else match escape since c with
        | .error e => .error e
        | .ok (y, c) => quotedWord isSingle since fuel (word ++ [y]) c

def quotedLoop (isSingle : Bool) (since : Mark) :
    Nat → List Char → Cursor → Except Fault (List Char × Cursor)
  | 0, text, c => .ok (text, c)
  | fuel + 1, text, c =>
    if c.atDocument then .error (c.fault .strayDocumentIndicator .quotedScalar since)
    else if (c.peek 0).isNone then .error (c.fault .endOfText .quotedScalar since)
    else match quotedWord isSingle since c.fuel [] c with
      | .error e => .error e
      | .ok ((word, isBroken), c) =>
        if c.sees (if isSingle then '\'' else '"') 0 then .ok (text ++ word, c.skip 1)
        else match Gap.read 0 since c.fuel { isBroken } c with
          | .error e => .error e
          | .ok (g, c) => quotedLoop isSingle since fuel (text ++ word ++ g.text) c

def quoted (isSingle : Bool) (c : Cursor) : Except Fault (List Char × Cursor) :=
  quotedLoop isSingle c.mark c.fuel [] (c.skip 1)

/-! ## Block scalars -/

/-- What becomes of the breaks at the end of a block scalar: all of them go, the first one stays, or
all of them stay. -/
inductive Chomp where
  | strip
  | clip
  | keep
  deriving DecidableEq, Repr

def chomp? : Option Char → Option Chomp
  | some '+' => some .keep
  | some '-' => some .strip
  | _ => none

def indentation? (since : Mark) (c : Cursor) : Except Fault (Option Nat × Cursor) :=
  match (c.peek 0).bind Text.digit? with
  | none => .ok (none, c)
  | some 0 => .error (c.fault .zeroIndentation .blockScalar since)
  | some n => .ok (some n, c.skip 1)

/-- Read the header of a block scalar: the breaks at its end, and its indentation. -/
def header (since : Mark) (c : Cursor) : Except Fault ((Chomp × Option Nat) × Cursor) := do
  let ((chomp, indentation), c) ← match chomp? (c.peek 0) with
    | some chomp => do
      let (n, c) ← indentation? since (c.skip 1)
      pure ((chomp, n), c)
    | none => do
      let (n, c) ← indentation? since c
      match n, chomp? (c.peek 0) with
      | some _, some chomp => pure ((chomp, n), c.skip 1)
      | _, _ => pure ((.clip, n), c)
  let c := (c.skipWhile isSpace).skipComment
  if !c.endsLine then throw (c.fault .missingLineEnd .blockScalar since)
  return ((chomp, indentation), c.skipBreak)

/-- Read indentation and empty lines. While the indentation is not known, it is found out: the deepest
one that is seen, but at least `least`. -/
def blankLines (least : Nat) (since : Mark) :
    Nat → Option Nat → Nat → List Char → Cursor → Except Fault ((Nat × List Char) × Cursor)
  | 0, indent, deepest, breaks, c => .ok ((indent.getD (max deepest least), breaks), c)
  | fuel + 1, indent, deepest, breaks, c =>
    let c := match indent with
      | none => c.skipWhile (· == ' ')
      | some n => c.skip ((c.rest.take (n - c.mark.column)).takeWhile (· == ' ')).length
    let deepest := max deepest c.mark.column
    if (indent.all (c.mark.column < ·)) && c.sees '\t' 0 then
      .error (c.fault .tabInIndentation .blockScalar since)
    else if (c.peek 0).any isBreak then
      blankLines least since fuel indent deepest (breaks ++ c.breakText) c.skipBreak
    else .ok ((indent.getD (max deepest least), breaks), c)

/-- The breaks of a block scalar that are not placed yet: the one that ended the last line, and those
of empty lines after it. -/
structure Pending where
  first : List Char := []
  more : List Char := []
  /-- Whether the last line began with a blank. -/
  blankStart : Bool := false

/-- What the breaks before a line read as. -/
def Pending.text (p : Pending) (isLiteral blankStart : Bool) : List Char :=
  if !isLiteral && p.first == ['\n'] && !p.blankStart && !blankStart then
    (if p.more.isEmpty then [' '] else []) ++ p.more
  else p.first ++ p.more

def blockLoop (isLiteral : Bool) (indent : Nat) (since : Mark) :
    Nat → List Char → Pending → Cursor → Except Fault ((List Char × Pending) × Cursor)
  | 0, text, p, c => .ok ((text, p), c)
  | fuel + 1, text, p, c =>
    if c.mark.column ≠ indent ∨ (c.peek 0).isNone then .ok ((text, p), c)
    else
      let blankStart := (c.peek 0).any isSpace
      let before := p.text isLiteral blankStart
      let (line, c) := c.span fun x => !isBreak x
      let first := c.breakText
      match blankLines 0 since c.fuel (some indent) 0 [] c.skipBreak with
      | .error e => .error e
      | .ok ((_, more), c) =>
        blockLoop isLiteral indent since fuel (text ++ before ++ line) { first, more, blankStart } c

/-- Read a block scalar, from its indicator on; `parent` is the indentation around it, if there is
any. -/
def block (isLiteral : Bool) (parent : Option Nat) (c : Cursor) :
    Except Fault (List Char × Cursor) := do
  let since := c.mark
  let ((chomp, indentation), c) ← header since (c.skip 1)
  let least := max 1 ((parent.map (· + 1)).getD 0)
  let known := indentation.map fun n => parent.getD 0 + n
  let ((indent, more), c) ← blankLines least since c.fuel known 0 [] c
  let ((text, p), c) ← blockLoop isLiteral indent since c.fuel [] { more } c
  return (text ++ (match chomp with
    | .strip => []
    | .clip => p.first
    | .keep => p.first ++ p.more), c)

end Scalar

end Depot.Yaml
