import Depot.Yaml.Fault

/-!
# Cursors

A place in a text with what follows it. Lines end with a carriage return, a line feed, both in this
order, or one of three Unicode characters; all but the last two of these read as a line feed.
-/

namespace Depot.Yaml

def isBreak (c : Char) : Bool :=
  c == '\n' || c == '\r' || c.toNat == 0x85 || c.toNat == 0x2028 || c.toNat == 0x2029

def isSpace (c : Char) : Bool := c == ' ' || c == '\t'

/-- A character that separates words. -/
def isGap (c : Char) : Bool := isSpace c || isBreak c

def isWord (c : Char) : Bool := c.isAlphanum || c == '_' || c == '-'

/-- A character that may stand in a text at all. -/
def isPrintable (c : Char) : Bool :=
  let n := c.toNat
  n == 9 || n == 10 || n == 13 || (0x20 ≤ n && n ≤ 0x7E) || n == 0x85 || (0xA0 ≤ n && n ≤ 0xFFFD) ||
    0x10000 ≤ n

/-- A place in a text with what follows it. -/
structure Cursor where
  rest : List Char
  mark : Mark := {}
  deriving DecidableEq, Repr

namespace Cursor

/-- The character `n` places ahead. -/
def peek (c : Cursor) (n : Nat) : Option Char := c.rest[n]?

def sees (c : Cursor) (x : Char) (n : Nat) : Bool := c.peek n == some x

/-- Whether nothing, or a separator, stands `n` places ahead. -/
def endsWord (c : Cursor) (n : Nat) : Bool := (c.peek n).all isGap

def endsLine (c : Cursor) : Bool := (c.peek 0).all isBreak

/-- Go on by `n` characters of the same line. -/
def skip (c : Cursor) (n : Nat) : Cursor :=
  ⟨c.rest.drop n, ⟨c.mark.index + n, c.mark.line, c.mark.column + n⟩⟩

/-- What the end of a line reads as. -/
def breakText (c : Cursor) : List Char :=
  match c.rest with
  | x :: _ =>
    if x.toNat == 0x2028 || x.toNat == 0x2029 then [x] else if isBreak x then ['\n'] else []
  | [] => []

def skipBreak (c : Cursor) : Cursor :=
  let past (n : Nat) : Cursor := ⟨c.rest.drop n, ⟨c.mark.index + n, c.mark.line + 1, 0⟩⟩
  match c.rest with
  | '\r' :: '\n' :: _ => past 2
  | x :: _ => if isBreak x then past 1 else c
  | [] => c

/-- The characters that satisfy `p`, and the place after them. -/
def span (p : Char → Bool) (c : Cursor) : List Char × Cursor :=
  let taken := c.rest.takeWhile p
  (taken, c.skip taken.length)

def skipWhile (p : Char → Bool) (c : Cursor) : Cursor := (c.span p).2

def skipComment (c : Cursor) : Cursor := if c.sees '#' 0 then c.skipWhile fun x => !isBreak x else c

/-- Whether a line begins here with three times `x` and a separator. -/
def atIndicator (c : Cursor) (x : Char) : Bool :=
  c.mark.column == 0 && c.sees x 0 && c.sees x 1 && c.sees x 2 && c.endsWord 3

/-- Whether the beginning or the end of a document is marked here. -/
def atDocument (c : Cursor) : Bool := c.atIndicator '-' || c.atIndicator '.'

def fault (c : Cursor) (problem : Problem) (activity : Activity) (since : Mark) : Fault :=
  ⟨problem, c.mark, some (activity, since)⟩

/-- A bound on the steps that a reader of the rest makes. -/
def fuel (c : Cursor) : Nat := c.rest.length + 1

end Cursor

end Depot.Yaml
