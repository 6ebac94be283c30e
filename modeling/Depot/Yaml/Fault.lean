/-!
# Faults of documents

Why a text is not a document: what is wrong, where, and what was being read at that point.
-/

namespace Depot.Yaml

/-- A place in a text. All counts are of characters, and start from zero. -/
structure Mark where
  index : Nat := 0
  line : Nat := 0
  column : Nat := 0
  deriving DecidableEq, Repr

namespace Mark

def isStart (m : Mark) : Bool := m.line == 0 && m.column == 0

def text (m : Mark) : String :=
  if m.isStart then s!"position {m.index}" else s!"line {m.line + 1} column {m.column + 1}"

end Mark

inductive Problem where
  | controlCharacter
  | strayCharacter
  | missingColon
  | strayEntry
  | strayKey
  | strayValue
  | missingDirectiveName
  | badDirectiveName
  | unknownDirective
  | missingLineEnd
  | missingDot
  | longVersion
  | missingVersion
  | missingBlank
  | missingBlankOrBreak
  | badAnchor
  | missingTagEnd
  | missingExclamation
  | missingTagUri
  | badTagEscape
  | badLeadingOctet
  | badTrailingOctet
  | zeroIndentation
  | tabInIndentation
  | tabBeforeText
  | strayDocumentIndicator
  | endOfText
  | unknownEscape
  | missingHexDigit
  | badCodePoint
  | unexpectedColon
  | missingDocumentStart
  | repeatedVersion
  | foreignVersion
  | repeatedTagHandle
  | unknownTagHandle
  | missingContent
  | missingEntry
  | missingKey
  | missingCommaInSequence
  | missingCommaInMapping
  deriving DecidableEq, Repr

def Problem.message : Problem → String
  | controlCharacter => "control characters are not allowed"
  | strayCharacter => "found character that cannot start any token"
  | missingColon => "could not find expected ':'"
  | strayEntry => "block sequence entries are not allowed in this context"
  | strayKey => "mapping keys are not allowed in this context"
  | strayValue => "mapping values are not allowed in this context"
  | missingDirectiveName => "could not find expected directive name"
  | badDirectiveName => "found unexpected non-alphabetical character"
  | unknownDirective => "found unknown directive name"
  | missingLineEnd => "did not find expected comment or line break"
  | missingDot => "did not find expected digit or '.' character"
  | longVersion => "found extremely long version number"
  | missingVersion => "did not find expected version number"
  | missingBlank => "did not find expected whitespace"
  | missingBlankOrBreak => "did not find expected whitespace or line break"
  | badAnchor => "did not find expected alphabetic or numeric character"
  | missingTagEnd => "did not find the expected '>'"
  | missingExclamation => "did not find expected '!'"
  | missingTagUri => "did not find expected tag URI"
  | badTagEscape => "did not find URI escaped octet"
  | badLeadingOctet => "found an incorrect leading UTF-8 octet"
  | badTrailingOctet => "found an incorrect trailing UTF-8 octet"
  | zeroIndentation => "found an indentation indicator equal to 0"
  | tabInIndentation => "found a tab character where an indentation space is expected"
  | tabBeforeText => "found a tab character that violates indentation"
  | strayDocumentIndicator => "found unexpected document indicator"
  | endOfText => "found unexpected end of stream"
  | unknownEscape => "found unknown escape character"
  | missingHexDigit => "did not find expected hexdecimal number"
  | badCodePoint => "found invalid Unicode character escape code"
  | unexpectedColon => "found unexpected ':'"
  | missingDocumentStart => "did not find expected <document start>"
  | repeatedVersion => "found duplicate %YAML directive"
  | foreignVersion => "found incompatible YAML document"
  | repeatedTagHandle => "found duplicate %TAG directive"
  | unknownTagHandle => "found undefined tag handle"
  | missingContent => "did not find expected node content"
  | missingEntry => "did not find expected '-' indicator"
  | missingKey => "did not find expected key"
  | missingCommaInSequence => "did not find expected ',' or ']'"
  | missingCommaInMapping => "did not find expected ',' or '\x7d'"

/-- What was being read when a problem was found. -/
inductive Activity where
  | nextToken
  | simpleKey
  | directive
  | versionDirective
  | tagDirective
  | tagDirectiveUri
  | anchor
  | reference
  | tag
  | tagUri
  | blockScalar
  | quotedScalar
  | escape
  | plainScalar
  | node
  | blockNode
  | flowNode
  | blockSequence
  | blockMapping
  | flowSequence
  | flowMapping
  deriving DecidableEq, Repr

def Activity.message : Activity → String
  | nextToken => "while scanning for the next token"
  | simpleKey => "while scanning a simple key"
  | directive => "while scanning a directive"
  | versionDirective => "while scanning a %YAML directive"
  | tagDirective => "while scanning a %TAG directive"
  | tagDirectiveUri => "while parsing a %TAG directive"
  | anchor => "while scanning an anchor"
  | reference => "while scanning an alias"
  | tag => "while scanning a tag"
  | tagUri => "while parsing a tag"
  | blockScalar => "while scanning a block scalar"
  | quotedScalar => "while scanning a quoted scalar"
  | escape => "while parsing a quoted scalar"
  | plainScalar => "while scanning a plain scalar"
  | node => "while parsing a node"
  | blockNode => "while parsing a block node"
  | flowNode => "while parsing a flow node"
  | blockSequence => "while parsing a block collection"
  | blockMapping => "while parsing a block mapping"
  | flowSequence => "while parsing a flow sequence"
  | flowMapping => "while parsing a flow mapping"

/-- A fault: a problem, its place, and what was being read and since where. -/
structure Fault where
  problem : Problem
  mark : Mark
  context : Option (Activity × Mark) := none
  deriving DecidableEq, Repr

def Fault.message (f : Fault) : String :=
  let place :=
    if !f.mark.isStart then " at " ++ f.mark.text
    else if f.problem = .controlCharacter ∧ f.mark.index ≠ 0 then s!" at position {f.mark.index}"
    else ""
  let context := match f.context with
    | none => ""
    | some (activity, since) =>
      ", " ++ activity.message ++
        if since.isStart || (since.line == f.mark.line && since.column == f.mark.column) then ""
        else " at " ++ since.text
  f.problem.message ++ place ++ context

end Depot.Yaml
