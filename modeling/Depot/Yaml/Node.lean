import Depot.Yaml.Token

/-!
# Documents

A document is a tree of scalars, sequences and mappings. A node with an anchor can be meant again later
by an alias, even inside of itself; so an alias is a node of its own, and a document keeps its anchored
nodes in a table.
-/

namespace Depot.Yaml

inductive Node where
  | scalar (text : String) (style : Style) (tag : Option String) (mark : Mark)
  | sequence (items : List Node) (mark : Mark)
  | mapping (entries : List (Node × Node)) (mark : Mark)
  /-- The anchored node of the given number. -/
  | reference (target : Nat) (mark : Mark)

/-- A document: its outermost node, if there is any, and its anchored nodes by their numbers. -/
structure Document where
  root : Option Node := none
  anchored : List (Nat × Node) := []

inductive Error where
  | fault (f : Fault)
  | unknownAnchor (mark : Mark)
  | severalDocuments
  deriving DecidableEq, Repr

def Error.message : Error → String
  | fault f => f.message
  | unknownAnchor m => "unknown anchor" ++ if m.isStart then "" else " at " ++ m.text
  | severalDocuments => "deserializing from YAML containing more than one document is not supported"

/-- A reader of documents: the tokens to come, and what is known of anchors and handles. -/
structure Builder where
  tokens : List Token
  fault : Option Fault
  /-- What short handles of tags stand for. -/
  handles : List (String × String) := []
  /-- The numbers of anchors, the latest one first. -/
  names : List (String × Nat) := []
  anchored : List (Nat × Node) := []

namespace Builder

abbrev Reader (α : Type) := StateT Builder (Except Error) α

def peek : Reader Token := do
  match (← get).tokens with
  | t :: _ => return t
  | [] => throw (.fault ((← get).fault.getD ⟨.endOfText, {}, none⟩))

def kind : Reader TokenKind := return (← peek).kind

def skip : Reader Unit := modify fun b => { b with tokens := b.tokens.tail }

/-- Stop at the next token. -/
def stop {α : Type} (problem : Problem) (context : Option (Activity × Mark)) : Reader α := do
  throw (.fault ⟨problem, (← peek).start, context⟩)

/-- The scalar that stands where nothing is written. -/
def emptyNode (mark : Mark) : Node := .scalar "" .plain none mark

def anchor? : Reader (Option String) := do
  match ← kind with
  | .anchor name => skip; return some name
  | _ => return none

/-- Read a tag, if there is one: its handle, what follows it, and its place. -/
def tag? : Reader (Option (String × String × Mark)) := do
  let t ← peek
  match t.kind with
  | .tag h suffix => skip; return some (h, suffix, t.start)
  | _ => return none

/-- The full text of a tag. -/
def resolve (since : Mark) : Option (String × String × Mark) → Reader (Option String)
  | none => return none
  | some (h, suffix, mark) => do
    if h = "" then return some suffix
    match (← get).handles.lookup h with
    | some uri => return some (uri ++ suffix)
    | none => throw (.fault ⟨.unknownTagHandle, mark, some (.node, since)⟩)

def name (anchor : Option String) : Reader (Option Nat) := do
  match anchor with
  | none => return none
  | some a =>
    let n := (← get).names.length
    modify fun b => { b with names := (a, n) :: b.names }
    return some n

/-- Keep an anchored node. -/
def keep (number : Option Nat) (node : Node) : Reader Node := do
  match number with
  | none => return node
  | some n =>
    modify fun b => { b with anchored := (n, node) :: b.anchored }
    return node

/-- Where a node may stand: in a flow collection, in a block, or as a value in a block, where the
entries of a sequence need no deeper column. -/
inductive Place where
  | flow
  | block
  | value
  deriving DecidableEq, Repr

mutual

def node (place : Place) : Nat → Reader Node
  | 0 => stop .missingContent none
  | fuel + 1 => do
    let since := (← peek).start
    match (← peek).kind with
    | .reference a =>
      match (← get).names.lookup a with
      | some n => skip; return .reference n since
      | none => throw (.unknownAnchor since)
    | _ => do
      let first ← anchor?
      let tag ← tag?
      let anchor ← if first.isNone then anchor? else pure first
      let isMarked := anchor.isSome || tag.isSome
      let tag ← resolve since tag
      let t ← peek
      match t.kind with
      | .scalar text style =>
        skip
        keep (← name anchor) (.scalar text style tag since)
      | .flowSequenceStart =>
        let n ← name anchor
        skip
        keep n (.sequence (← flowItems t.start true fuel) since)
      | .flowMappingStart =>
        let n ← name anchor
        skip
        keep n (.mapping (← flowEntries t.start true fuel) since)
      | .entry =>
        if place = .value then
          let n ← name anchor
          keep n (.sequence (← looseItems fuel) since)
        else content place anchor isMarked since fuel
      | .sequenceStart =>
        if place = .flow then content place anchor isMarked since fuel
        else
          let n ← name anchor
          skip
          keep n (.sequence (← blockItems t.start fuel) since)
      | .mappingStart =>
        if place = .flow then content place anchor isMarked since fuel
        else
          let n ← name anchor
          skip
          keep n (.mapping (← blockEntries t.start fuel) since)
      | _ => content place anchor isMarked since fuel

/-- The empty scalar of a node that has properties only. -/
def content (place : Place) (anchor : Option String) (isMarked : Bool) (since : Mark) :
    Nat → Reader Node
  | _ => do
    if isMarked then keep (← name anchor) (emptyNode since)
    else stop .missingContent (some (if place = .flow then .flowNode else .blockNode, since))

/-- Read a node, or nothing where a token of the given kinds is next. -/
def nodeUnless (place : Place) (ends : List TokenKind) (mark : Mark) : Nat → Reader Node
  | 0 => stop .missingContent none
  | fuel + 1 => do if ends.contains (← kind) then return emptyNode mark else node place fuel

def blockItems (since : Mark) : Nat → Reader (List Node)
  | 0 => stop .missingEntry none
  | fuel + 1 => do
    let t ← peek
    match t.kind with
    | .entry =>
      skip
      let item ← nodeUnless .block [.entry, .blockEnd] t.stop fuel
      return item :: (← blockItems since fuel)
    | .blockEnd => skip; return []
    | _ => stop .missingEntry (some (.blockSequence, since))

/-- Read the items of a block sequence that stands at the column of its mapping. -/
def looseItems : Nat → Reader (List Node)
  | 0 => stop .missingEntry none
  | fuel + 1 => do
    let t ← peek
    match t.kind with
    | .entry =>
      skip
      let item ← nodeUnless .block [.entry, .key, .value, .blockEnd] t.stop fuel
      return item :: (← looseItems fuel)
    | _ => return []

def blockEntries (since : Mark) : Nat → Reader (List (Node × Node))
  | 0 => stop .missingKey none
  | fuel + 1 => do
    let t ← peek
    match t.kind with
    | .key =>
      skip
      let key ← nodeUnless .value [.key, .value, .blockEnd] t.stop fuel
      let t ← peek
      let value ← if t.kind = .value then
          skip
          nodeUnless .value [.key, .value, .blockEnd] t.stop fuel
        else pure (emptyNode t.start)
      return (key, value) :: (← blockEntries since fuel)
    | .blockEnd => skip; return []
    | _ => stop .missingKey (some (.blockMapping, since))

/-- Read the value of an entry of a flow collection, if there is one. -/
def flowValue (ends : List TokenKind) : Nat → Reader Node
  | 0 => stop .missingContent none
  | fuel + 1 => do
    let t ← peek
    if t.kind = .value then
      skip
      nodeUnless .flow ends t.stop fuel
    else return emptyNode t.start

/-- Read the items of a flow sequence. An item may be a mapping of a single entry. -/
def flowItems (since : Mark) (isFirst : Bool) : Nat → Reader (List Node)
  | 0 => stop .missingCommaInSequence none
  | fuel + 1 => do
    if (← kind) = .flowSequenceEnd then skip; return []
    if !isFirst then
      if (← kind) = .comma then skip
      else stop .missingCommaInSequence (some (.flowSequence, since))
    let t ← peek
    match t.kind with
    | .flowSequenceEnd => skip; return []
    | .key =>
      skip
      let key ← if [TokenKind.value, .comma, .flowSequenceEnd].contains (← kind) then do
          let mark := (← peek).stop
          skip
          pure (emptyNode mark)
        else node .flow fuel
      let value ← flowValue [.comma, .flowSequenceEnd] fuel
      return .mapping [(key, value)] t.start :: (← flowItems since false fuel)
    | _ =>
      let item ← node .flow fuel
      return item :: (← flowItems since false fuel)

def flowEntries (since : Mark) (isFirst : Bool) : Nat → Reader (List (Node × Node))
  | 0 => stop .missingCommaInMapping none
  | fuel + 1 => do
    if (← kind) = .flowMappingEnd then skip; return []
    if !isFirst then
      if (← kind) = .comma then skip
      else stop .missingCommaInMapping (some (.flowMapping, since))
    let t ← peek
    match t.kind with
    | .flowMappingEnd => skip; return []
    | .key =>
      skip
      let mark := (← peek).start
      let key ← nodeUnless .flow [.value, .comma, .flowMappingEnd] mark fuel
      let value ← flowValue [.comma, .flowMappingEnd] fuel
      return (key, value) :: (← flowEntries since false fuel)
    | _ =>
      let key ← node .flow fuel
      let value := emptyNode (← peek).start
      return (key, value) :: (← flowEntries since false fuel)

end

/-- The handles that need no directive. -/
def usualHandles : List (String × String) := [("!", "!"), ("!!", "tag:yaml.org,2002:")]

/-- Read the directives before a document; `version` and `handles` are those read before. -/
def directives : Nat → Bool → List (String × String) → Reader (List (String × String))
  | 0, _, handles => return handles
  | fuel + 1, hasVersion, handles => do
    let t ← peek
    match t.kind with
    | .version major minor =>
      if hasVersion then stop .repeatedVersion none
      if major ≠ 1 ∨ (minor ≠ 1 ∧ minor ≠ 2) then stop .foreignVersion none
      skip
      directives fuel true handles
    | .tagHandle h uri =>
      if (handles.lookup h).isSome then stop .repeatedTagHandle none
      skip
      directives fuel hasVersion (handles ++ [(h, uri)])
    | _ => return handles

def skipEnds : Nat → Reader Unit
  | 0 => return ()
  | fuel + 1 => do
    if (← kind) = .documentEnd then
      skip
      skipEnds fuel

/-- Read the one document of a text. A text without any has an empty one. -/
def document : Reader Document := do
  let fuel := 4 * ((← get).tokens.length + 1)
  let first ← kind
  if first = .streamEnd then return {}
  let isDeclared := match first with
    | .version _ _ | .tagHandle _ _ => true
    | _ => false
  let declared ← directives fuel false []
  modify fun b => { b with handles := declared ++ usualHandles }
  let isExplicit := (← kind) == .documentStart
  if isExplicit then skip
  else if isDeclared then stop .missingDocumentStart none
  let t ← peek
  let isEmpty := match t.kind with
    | .version _ _ | .tagHandle _ _ | .documentStart | .documentEnd | .streamEnd => isExplicit
    | _ => false
  let root ← if isEmpty then pure (emptyNode t.start) else node .block fuel
  discard peek
  let rest : Reader Bool := do
    skipEnds fuel
    return (← kind) == .streamEnd
  match rest.run (← get) with
  | .ok (true, _) => return { root := some root, anchored := (← get).anchored }
  | _ => throw .severalDocuments

end Builder

namespace Document

def ofText (s : String) : Except Error Document :=
  let (tokens, fault) := Token.ofText s
  match Builder.document.run { tokens, fault } with
  | .ok (d, _) => .ok d
  | .error e => .error e

end Document

end Depot.Yaml
