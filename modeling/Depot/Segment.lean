import Depot.Text

/-!
# Path segments

Percent-coding of the segments of a path. Writing keeps letters, digits and `-._~` and writes every
other byte as `%` and two hexadecimal digits. Reading turns such triples back into bytes, keeps a `%`
that no two digits follow, and fails where the bytes are not a text.
-/

namespace Depot.Segment

/-- A byte that stands for itself in a written segment. -/
def isPlain (b : UInt8) : Bool :=
  let c := Char.ofNat b.toNat
  b < 128 && (c.isAlphanum || "-._~".toList.contains c)

def encodeByte (b : UInt8) : List Char :=
  if isPlain b then [Char.ofNat b.toNat]
  else '%' :: (Text.hexPair b).map Char.toUpper

/-- Write a segment. -/
def encode (s : String) : String := String.ofList ((Bytes.ofText s).flatMap encodeByte)

def decodeBytes : List Char → Bytes
  | '%' :: a :: b :: rest =>
    match Text.hexDigit? a, Text.hexDigit? b with
    | some x, some y => UInt8.ofNat (16 * x + y) :: decodeBytes rest
    | _, _ => Bytes.ofText "%" ++ decodeBytes (a :: b :: rest)
  | c :: rest => Bytes.ofText (String.singleton c) ++ decodeBytes rest
  | [] => []

/-- Read a segment. -/
def decode? (s : String) : Option String := Bytes.text? (decodeBytes s.toList)

end Depot.Segment
