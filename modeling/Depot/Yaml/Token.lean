import Depot.Yaml.Scalar

/-!
# Tokens

A text as a list of tokens. Blocks have no brackets of their own: their beginnings and ends follow from
the columns of what stands in them. A key without an indicator is recognised by the colon after it, on
the same line and not too far away; the tokens that introduce it are then put in front of it.
-/

namespace Depot.Yaml

/-- What a token is. -/
inductive TokenKind where
  | streamEnd
  | version (major minor : Nat)
  | tagHandle (handle uri : String)
  | documentStart
  | documentEnd
  | sequenceStart
  | mappingStart
  | blockEnd
  | flowSequenceStart
  | flowSequenceEnd
  | flowMappingStart
  | flowMappingEnd
  | entry
  | comma
  | key
  | value
  | reference (name : String)
  | anchor (name : String)
  | tag (handle suffix : String)
  | scalar (text : String) (style : Style)
  deriving DecidableEq, Repr

structure Token where
  kind : TokenKind
  start : Mark
  stop : Mark
  deriving DecidableEq, Repr

/-- A place where a key without an indicator may have begun. -/
structure SimpleKey where
  /-- Whether something else than a key would be a fault. -/
  isRequired : Bool
  /-- How many tokens stand before it. -/
  position : Nat
  mark : Mark
  deriving DecidableEq, Repr

/-- A text on its way to tokens. -/
structure Lexer where
  cursor : Cursor
  tokens : Array Token := #[]
  /-- The column of the innermost block, and those of the blocks around it. -/
  indents : List Nat := []
  /-- Whether a key may begin here. -/
  allowsKey : Bool := true
  /-- The key that may have begun outside of flow collections. -/
  outerKey : Option SimpleKey := none
  /-- The keys that may have begun in the open flow collections, innermost first. -/
  flowKeys : List (Option SimpleKey) := []

namespace Lexer

def inFlow (l : Lexer) : Bool := !l.flowKeys.isEmpty

def key (l : Lexer) : Option SimpleKey := l.flowKeys.headD l.outerKey

def setKey (l : Lexer) (k : Option SimpleKey) : Lexer :=
  match l.flowKeys with
  | [] => { l with outerKey := k }
  | _ :: outer => { l with flowKeys := k :: outer }

/-- Add a token without any characters. -/
def mark (l : Lexer) (kind : TokenKind) : Lexer :=
  { l with tokens := l.tokens.push ⟨kind, l.cursor.mark, l.cursor.mark⟩ }

/-- Add a token that ends at `next`. -/
def push (l : Lexer) (kind : TokenKind) (next : Cursor) : Lexer :=
  { l with tokens := l.tokens.push ⟨kind, l.cursor.mark, next.mark⟩, cursor := next }

def take (l : Lexer) (kind : TokenKind) (n : Nat) : Lexer := l.push kind (l.cursor.skip n)

/-- Put a token in front of those from a position on. -/
def insert (l : Lexer) (position : Nat) (kind : TokenKind) (m : Mark) : Lexer :=
  { l with tokens := (l.tokens.extract 0 position).push ⟨kind, m, m⟩ ++
      l.tokens.extract position l.tokens.size }

/-- The fault of a required key that no colon follows. -/
def missingColon (l : Lexer) (k : SimpleKey) : Fault :=
  l.cursor.fault .missingColon .simpleKey k.mark

def dropKey (l : Lexer) : Except Fault Lexer :=
  match l.key with
  | some k => if k.isRequired then .error (l.missingColon k) else .ok (l.setKey none)
  | none => .ok l

def noteKey (l : Lexer) : Except Fault Lexer := do
  if !l.allowsKey then return l
  let isRequired := !l.inFlow && l.indents.head? == some l.cursor.mark.column
  return (← l.dropKey).setKey (some ⟨isRequired, l.tokens.size, l.cursor.mark⟩)

/-- How far from the beginning of a key its colon may stand. -/
def maxKey : Nat := 1024

/-- A key that can still be one: its colon would be on its line, and near. -/
def fresh (l : Lexer) (k : Option SimpleKey) : Except Fault (Option SimpleKey) :=
  match k with
  | none => .ok none
  | some k =>
    if k.mark.line < l.cursor.mark.line ∨ k.mark.index + maxKey < l.cursor.mark.index then
      if k.isRequired then .error (l.missingColon k) else .ok none
    else .ok (some k)

def dropStale (l : Lexer) : Except Fault Lexer := do
  let outerKey ← l.fresh l.outerKey
  let flowKeys ← l.flowKeys.mapM l.fresh
  return { l with outerKey, flowKeys }

/-- Begin a block at a column, if that is deeper than the block around it. -/
def indent (l : Lexer) (column position : Nat) (kind : TokenKind) (m : Mark) : Lexer :=
  if l.inFlow || l.indents.head?.any (column ≤ ·) then l
  else { l.insert position kind m with indents := column :: l.indents }

/-- End the blocks that are deeper than `keep` says. -/
def unindentTo (l : Lexer) (keep : Nat → Bool) : Lexer :=
  if l.inFlow then l
  else
    let ended := l.indents.takeWhile fun n => !keep n
    ended.foldl (fun l _ => l.mark .blockEnd) { l with indents := l.indents.drop ended.length }

/-- Pass over blanks, comments and empty lines. A tab may not stand where a key could begin. -/
def skipGaps : Nat → Lexer → Lexer
  | 0, l => l
  | fuel + 1, l =>
    let isBlank (x : Char) : Bool := x == ' ' || ((l.inFlow || !l.allowsKey) && x == '\t')
    let c := (l.cursor.skipWhile isBlank).skipComment
    if (c.peek 0).any isBreak then
      skipGaps fuel { l with cursor := c.skipBreak, allowsKey := l.allowsKey || !l.inFlow }
    else { l with cursor := c }

/-! ## Directives -/

def versionNumber (since : Mark) (c : Cursor) : Except Fault (Nat × Cursor) :=
  let (digits, next) := c.span Char.isDigit
  if 9 < digits.length then .error ((c.skip 9).fault .longVersion .versionDirective since)
  else match Text.decimal? digits with
    | none => .error (c.fault .missingVersion .versionDirective since)
    | some n => .ok (n, next)

def handle (inDirective : Bool) (since : Mark) (c : Cursor) : Except Fault (String × Cursor) :=
  let activity : Activity := if inDirective then .tagDirective else .tag
  if !c.sees '!' 0 then .error (c.fault .missingExclamation activity since)
  else
    let (name, c) := (c.skip 1).span isWord
    if c.sees '!' 0 then .ok ("!" ++ String.ofList name ++ "!", c.skip 1)
    else if inDirective && !name.isEmpty then
      .error (c.fault .missingExclamation .tagDirectiveUri since)
    else .ok ("!" ++ String.ofList name, c)

/-- Read an octet that is written as `%` and two digits. -/
def octet (activity : Activity) (since : Mark) (c : Cursor) : Except Fault (UInt8 × Cursor) :=
  match c.sees '%' 0, (c.peek 1).bind Text.hexDigit?, (c.peek 2).bind Text.hexDigit? with
  | true, some a, some b => .ok (UInt8.ofNat (16 * a + b), c.skip 3)
  | _, _, _ => .error (c.fault .badTagEscape activity since)

/-- Read the octets that continue a character. -/
def trailing (activity : Activity) (since : Mark) :
    Nat → Bytes → Cursor → Except Fault (Bytes × Cursor)
  | 0, bytes, c => .ok (bytes, c)
  | n + 1, bytes, c => do
    let (b, next) ← octet activity since c
    if b &&& 0xC0 ≠ 0x80 then throw (c.fault .badTrailingOctet activity since)
    trailing activity since n (bytes ++ [b]) next

def octets (activity : Activity) (since : Mark) (c : Cursor) : Except Fault (List Char × Cursor) := do
  let (b, next) ← octet activity since c
  let more ← if b &&& 0x80 = 0 then pure 0
    else if b &&& 0xE0 = 0xC0 then pure 1
    else if b &&& 0xF0 = 0xE0 then pure 2
    else if b &&& 0xF8 = 0xF0 then pure 3
    else throw (c.fault .badLeadingOctet activity since)
  let (bytes, next) ← trailing activity since more [b] next
  return (((Bytes.text? bytes).map (·.toList)).getD [], next)

/-- Read what follows a handle. -/
def uriLoop (isVerbatim : Bool) (activity : Activity) (since : Mark) :
    Nat → List Char → Cursor → Except Fault (List Char × Cursor)
  | 0, uri, c => .ok (uri, c)
  | fuel + 1, uri, c =>
    match c.peek 0 with
    | some '%' =>
      match octets activity since c with
      | .error e => .error e
      | .ok (x, c) => uriLoop isVerbatim activity since fuel (uri ++ x) c
    | some x =>
      if isWord x || ";/?:@&=+$.!~*'()".toList.contains x ||
          (isVerbatim && ",[]".toList.contains x) then
        uriLoop isVerbatim activity since fuel (uri ++ [x]) (c.skip 1)
      else .ok (uri, c)
    | none => .ok (uri, c)

/-- Read what follows a handle; `start` has been read already. -/
def uri (isVerbatim : Bool) (activity : Activity) (since : Mark) (start : String) (c : Cursor) :
    Except Fault (String × Cursor) := do
  let (uri, c) ← uriLoop isVerbatim activity since c.fuel (start.toList.drop 1) c
  if uri.isEmpty && start.isEmpty then throw (c.fault .missingTagUri activity since)
  return (String.ofList uri, c)

def directive (since : Mark) (c : Cursor) : Except Fault (TokenKind × Cursor) := do
  let (name, c) := (c.skip 1).span isWord
  if name.isEmpty then throw (c.fault .missingDirectiveName .directive since)
  if !c.endsWord 0 then throw (c.fault .badDirectiveName .directive since)
  let (kind, c) ← match String.ofList name with
    | "YAML" => do
      let (major, c) ← versionNumber since (c.skipWhile isSpace)
      if !c.sees '.' 0 then throw (c.fault .missingDot .versionDirective since)
      let (minor, c) ← versionNumber since (c.skip 1)
      pure (TokenKind.version major minor, c)
    | "TAG" => do
      let (h, c) ← handle true since (c.skipWhile isSpace)
      if !(c.peek 0).any isSpace then throw (c.fault .missingBlank .tagDirective since)
      let (u, c) ← uri true .tagDirectiveUri since "" (c.skipWhile isSpace)
      if !c.endsWord 0 then throw (c.fault .missingBlankOrBreak .tagDirective since)
      pure (TokenKind.tagHandle h u, c)
    | _ => throw (c.fault .unknownDirective .directive since)
  let c := (c.skipWhile isSpace).skipComment
  if !c.endsLine then throw (c.fault .missingLineEnd .directive since)
  return (kind, c.skipBreak)

/-! ## Properties of nodes -/

def anchorName (activity : Activity) (c : Cursor) : Except Fault (String × Cursor) :=
  let (name, next) := (c.skip 1).span isWord
  if name.isEmpty || !(next.endsWord 0 ||
      (next.peek 0).any fun x => "?:,]%@".toList.contains x || x == '\x7d' || x == '\x60') then
    .error (next.fault .badAnchor activity c.mark)
  else .ok (String.ofList name, next)

def tag (inFlow : Bool) (c : Cursor) : Except Fault (TokenKind × Cursor) := do
  let since := c.mark
  let ((h, suffix), c) ← if c.sees '<' 1 then do
      let (u, c) ← uri true .tagUri since "" (c.skip 2)
      if !c.sees '>' 0 then throw (c.fault .missingTagEnd .tag since)
      pure (("", u), c.skip 1)
    else do
      let (h, c) ← handle false since c
      if 2 ≤ h.length ∧ h.endsWith "!" then
        let (u, c) ← uri false .tagUri since "" c
        pure ((h, u), c)
      else
        let (u, c) ← uri false .tagUri since h c
        pure (if u = "" then ("", "!") else ("!", u), c)
  if !((inFlow && c.sees ',' 0) || c.endsWord 0) then
    throw (c.fault .missingBlankOrBreak .tag since)
  return (.tag h suffix, c)

/-! ## Steps -/

def stray (l : Lexer) (problem : Problem) : Fault := ⟨problem, l.cursor.mark, none⟩

/-- Read a directive or the mark of a document, which end all blocks. -/
def atMargin (l : Lexer) (f : Lexer → Except Fault Lexer) : Except Fault Lexer := do
  let l ← (l.unindentTo fun _ => false).dropKey
  f { l with allowsKey := false }

def openFlow (l : Lexer) (kind : TokenKind) : Except Fault Lexer := do
  let l ← l.noteKey
  return ({ l with flowKeys := none :: l.flowKeys, allowsKey := true } : Lexer).take kind 1

def closeFlow (l : Lexer) (kind : TokenKind) : Except Fault Lexer := do
  let l ← l.dropKey
  return ({ l with flowKeys := l.flowKeys.tail, allowsKey := false } : Lexer).take kind 1

/-- Read an indicator that may begin a block. -/
def indicator (l : Lexer) (problem : Problem) (block kind : TokenKind) (allowsKey : Bool) :
    Except Fault Lexer := do
  if !l.inFlow && !l.allowsKey then throw (l.stray problem)
  let l := l.indent l.cursor.mark.column l.tokens.size block l.cursor.mark
  let l ← l.dropKey
  return ({ l with allowsKey } : Lexer).take kind 1

def valueIndicator (l : Lexer) : Except Fault Lexer :=
  match l.key with
  | some k =>
    let l := (l.insert k.position .key k.mark).indent k.mark.column k.position .mappingStart k.mark
    return ({ l.setKey none with allowsKey := false } : Lexer).take .value 1
  | none => do
    if !l.inFlow && !l.allowsKey then throw (l.stray .strayValue)
    let l := l.indent l.cursor.mark.column l.tokens.size .mappingStart l.cursor.mark
    return ({ l with allowsKey := !l.inFlow } : Lexer).take .value 1

/-- Read a property or a scalar, which may begin a key. -/
def property (l : Lexer) (read : Cursor → Except Fault (TokenKind × Cursor)) :
    Except Fault Lexer := do
  let l ← l.noteKey
  let (kind, c) ← read l.cursor
  return { l with allowsKey := false }.push kind c

def blockScalar (l : Lexer) (style : Style) : Except Fault Lexer := do
  let l ← l.dropKey
  let (text, c) ← Scalar.block (style == .literal) l.indents.head? l.cursor
  return { l with allowsKey := true }.push (.scalar (String.ofList text) style) c

/-- Read a plain scalar. After it a key may begin if its line has ended. -/
def plainScalar (l : Lexer) : Except Fault Lexer := do
  let l ← l.noteKey
  let indent := (l.indents.head?.map (· + 1)).getD 0
  let ((text, isBroken), c) ← Scalar.plain l.inFlow indent l.cursor
  return { l with allowsKey := isBroken }.push (.scalar (String.ofList text) .plain) c

def startsPlain (l : Lexer) : Bool :=
  match l.cursor.peek 0 with
  | none => false
  | some '-' => !(l.cursor.peek 1).any isSpace
  | some x =>
    if x == '?' || x == ':' then !l.inFlow && !l.cursor.endsWord 1
    else !isGap x && !",[]#&*!|>'\"%@".toList.contains x && x != '\x7b' && x != '\x7d' && x != '\x60'

def readToken (l : Lexer) (x : Char) : Except Fault Lexer :=
  let c := l.cursor
  if c.mark.column = 0 ∧ x = '%' then
    l.atMargin fun l => do
      let (kind, next) ← directive c.mark c
      return l.push kind next
  else if c.atIndicator '-' then l.atMargin fun l => return l.take .documentStart 3
  else if c.atIndicator '.' then l.atMargin fun l => return l.take .documentEnd 3
  else if x = '[' then l.openFlow .flowSequenceStart
  else if x = '\x7b' then l.openFlow .flowMappingStart
  else if x = ']' then l.closeFlow .flowSequenceEnd
  else if x = '\x7d' then l.closeFlow .flowMappingEnd
  else if x = ',' then do
    let l ← l.dropKey
    return ({ l with allowsKey := true } : Lexer).take .comma 1
  else if x = '-' ∧ c.endsWord 1 then l.indicator .strayEntry .sequenceStart .entry true
  else if x = '?' ∧ (l.inFlow ∨ c.endsWord 1) then
    l.indicator .strayKey .mappingStart .key (!l.inFlow)
  else if x = ':' ∧ (l.inFlow ∨ c.endsWord 1) then l.valueIndicator
  else if x = '*' then l.property fun c => do
    let (name, next) ← anchorName .reference c
    return (.reference name, next)
  else if x = '&' then l.property fun c => do
    let (name, next) ← anchorName .anchor c
    return (.anchor name, next)
  else if x = '!' then l.property (tag l.inFlow)
  else if x = '|' ∧ !l.inFlow then l.blockScalar .literal
  else if x = '>' ∧ !l.inFlow then l.blockScalar .folded
  else if x = '\'' ∨ x = '"' then l.property fun c => do
    let style := if x = '\'' then Style.single else Style.double
    let (text, next) ← Scalar.quoted (x == '\'') c
    return (.scalar (String.ofList text) style, next)
  else if l.startsPlain then l.plainScalar
  else .error (c.fault .strayCharacter .nextToken c.mark)

def finish (l : Lexer) : Except Fault Lexer := do
  let m := l.cursor.mark
  let m : Mark := if m.column = 0 then m else { m with line := m.line + 1, column := 0 }
  let l : Lexer := { l with cursor := { l.cursor with mark := m } }
  let l ← (l.unindentTo fun _ => false).dropKey
  return l.mark .streamEnd

/-- Read the next token, after what stands before it; at the end of the text all is read. -/
def next (l : Lexer) : Except Fault (Lexer × Bool) := do
  let l ← (l.skipGaps l.cursor.fuel).dropStale
  let l := l.unindentTo fun n => decide (n ≤ l.cursor.mark.column)
  match l.cursor.peek 0 with
  | none => return (← l.finish, true)
  | some x => return (← l.readToken x, false)

/-- Read tokens until the end of the text or a fault. -/
def run : Nat → Lexer → List Token × Option Fault
  | 0, l => (l.tokens.toList, none)
  | fuel + 1, l =>
    match l.next with
    | .error e => (l.tokens.toList, some e)
    | .ok (l, true) => (l.tokens.toList, none)
    | .ok (l, false) => run fuel l

end Lexer

namespace Token

/-- The number of bytes before the first character that may not stand in a text. -/
def controlOffset? (cs : List Char) : Option Nat :=
  let good := cs.takeWhile isPrintable
  if good.length = cs.length then none else some (String.ofList good).utf8ByteSize

/-- The tokens of a text, up to a fault if there is one. A mark of the byte order may stand first. -/
def ofText (s : String) : List Token × Option Fault :=
  match controlOffset? s.toList with
  | some n => ([], some ⟨.controlCharacter, { index := n }, none⟩)
  | none =>
    let cs := match s.toList with
      | x :: rest => if x.toNat = 0xFEFF then rest else x :: rest
      | [] => []
    let c : Cursor := ⟨cs, {}⟩
    Lexer.run (2 * c.fuel) { cursor := c }

end Token

end Depot.Yaml
