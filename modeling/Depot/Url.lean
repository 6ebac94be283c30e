import Depot.Text

/-!
# Addresses

The address of a site: a scheme, a host with an optional port, a path, and what follows it. Reading
settles what can be written in several ways: letters of scheme and host are in lower case, the default
port is left out, `.` and `..` in the path are resolved, and characters that may not stand in a path are
percent-coded. An address whose scheme does not lead to a host keeps its path as it is.
-/

namespace Depot

structure Url where
  scheme : String
  /-- The host, unless the scheme does not lead to one. -/
  host : Option String
  port : Option Nat := none
  path : String
  /-- A query and a fragment, with the signs that introduce them. -/
  tail : String := ""
  deriving DecidableEq, Repr

namespace Url

/-- The schemes that always lead to a host, with their default ports. -/
def hostSchemes : List (String × Nat) :=
  [("http", 80), ("https", 443), ("ws", 80), ("wss", 443), ("ftp", 21)]

def text (u : Url) : String :=
  let authority := match u.host with
    | some host => "//" ++ host ++ (match u.port with
      | some port => ":" ++ toString port
      | none => "")
    | none => ""
  u.scheme ++ ":" ++ authority ++ u.path ++ u.tail

/-- Write the characters of a path or tail that may not stand there as `%` and two digits. -/
def escape (special : List Char) (cs : List Char) : String :=
  String.ofList (cs.flatMap fun c =>
    if c.toNat ≤ 0x20 || 0x7F ≤ c.toNat || special.contains c then
      (Bytes.ofText (String.singleton c)).flatMap fun b => '%' :: (Text.hexPair b).map Char.toUpper
    else [c])

/-- A path segment that stands for its own directory. -/
def isSame (s : String) : Bool := [".", "%2e"].contains (Text.lower s)

/-- A path segment that stands for the directory above. -/
def isUp (s : String) : Bool := ["..", ".%2e", "%2e.", "%2e%2e"].contains (Text.lower s)

/-- Resolve relative segments. `above` holds the segments so far, the last one first. -/
def resolve : List String → List String → List String
  | above, [] => above.reverse
  | above, [s] =>
    if isUp s then ("" :: above.tail).reverse
    else if isSame s then ("" :: above).reverse
    else (s :: above).reverse
  | above, s :: rest =>
    if isUp s then resolve above.tail rest
    else if isSame s then resolve above rest
    else resolve (s :: above) rest

/-- The path of some segments, relative ones resolved. -/
def pathOf (segments : List (List Char)) : String :=
  "/" ++ "/".intercalate (resolve [] (segments.map fun s =>
    escape ['"', '<', '>', Char.ofNat 0x60, Char.ofNat 0x7B, Char.ofNat 0x7D] s))

/-- Split what follows the host into the path and the tail. -/
def splitTail (cs : List Char) : List Char × String :=
  let inPath := cs.takeWhile fun c => c != '?' && c != '#'
  (inPath, escape ['"', '<', '>'] (cs.drop inPath.length))

/-- The value of one part of a numeric host: hexadecimal after `0x`, octal after a zero. -/
def hostNumber? (s : String) : Option Nat :=
  let digits (base : Nat) (cs : List Char) : Option Nat :=
    cs.foldlM (fun n c => ((Text.hexDigit? c).filter (· < base)).map (base * n + ·)) 0
  match s.toList with
  | [] => none
  | '0' :: x :: rest => if x == 'x' || x == 'X' then digits 16 rest else digits 8 (x :: rest)
  | cs => digits 10 cs

/-- Whether a host is numeric, as its last part tells. -/
def isNumeric (host : String) : Bool :=
  let parts := (Text.split '.' host).reverse
  let parts := if parts.head? = some "" then parts.tail else parts
  parts.head?.any fun s => s != "" && ((hostNumber? s).isSome || s.toList.all Char.isDigit)

/-- The numeric host with its four parts, if its text is the number of one. -/
def numericHost? (host : String) : Option String := do
  let parts := Text.split '.' host
  let parts := if parts.getLast? = some "" then parts.dropLast else parts
  if parts.length > 4 then none
  let numbers ← parts.mapM hostNumber?
  let last ← numbers.getLast?
  if numbers.dropLast.any (255 < ·) || 1 <<< (8 * (5 - numbers.length)) ≤ last then none
  let (high, _) := numbers.dropLast.foldl (fun (acc, scale) n => (acc + n * scale, scale / 256))
    (0, 0x1000000)
  let value := high + last
  some (".".intercalate ([value / 0x1000000, value / 0x10000 % 256, value / 256 % 256,
    value % 256].map toString))

def isForbidden (c : Char) : Bool :=
  c.toNat ≤ 0x20 || c.toNat == 0x7F || "#%/:<>?@[\\]^|".toList.contains c

def host? (cs : List Char) : Option String :=
  match cs with
  | '[' :: rest =>
    if rest.getLast? = some ']' ∧ 2 ≤ rest.count ':' ∧
        rest.dropLast.all (fun c => (Text.hexDigit? c).isSome || c == ':' || c == '.') then
      some (Text.lower (String.ofList cs))
    else none
  | _ =>
    let host := Text.lower (String.ofList cs)
    if host.isEmpty || host.toList.any isForbidden then none
    else if isNumeric host then numericHost? host
    else some host

/-- Split an authority into the text of the host and the text of the port. -/
def splitPort (cs : List Char) : List Char × Option (List Char) :=
  let afterColon := cs.reverse.takeWhile fun c => c != ':' && c != ']'
  match cs.reverse.drop afterColon.length with
  | ':' :: host => (host.reverse, some afterColon.reverse)
  | _ => (cs, none)

/-- Read the authority and what follows it. -/
def afterScheme? (scheme : String) (usual : Nat) (cs : List Char) : Option Url := do
  let isSlash (c : Char) : Bool := c == '/' || c == '\\'
  let cs := cs.dropWhile isSlash
  let authority := cs.takeWhile fun c => !isSlash c && c != '?' && c != '#'
  let named := (authority.reverse.takeWhile (· != '@')).reverse
  let (name, portText) := splitPort named
  let host ← host? name
  let port ← match portText with
    | none | some [] => some none
    | some digits => ((Text.decimal? digits).filter (· < 65536)).map some
  let (path, tail) := splitTail (cs.drop authority.length)
  let segments := Text.splitList '/' ((path.map fun c => if c == '\\' then '/' else c).drop 1)
  return { scheme, host := some host, port := port.filter (· != usual), path := pathOf segments, tail }

def parse? (s : String) : Option Url := do
  let cs := (Text.trimList (fun c => c.toNat ≤ 0x20) s.toList).filter fun c =>
    c != '\t' && c != '\n' && c != '\r'
  let name := cs.takeWhile (· != ':')
  let ':' :: rest := cs.drop name.length | none
  if !(name.head?.any Char.isAlpha &&
      name.all fun c => c.isAlphanum || c == '+' || c == '-' || c == '.') then none
  let scheme := Text.lower (String.ofList name)
  match hostSchemes.lookup scheme with
  | some usual => afterScheme? scheme usual rest
  | none =>
    let (path, tail) := splitTail rest
    return { scheme, host := none, path := escape [] path, tail }

/-- The address that a reference in an answer leads to, seen from the address that answered. -/
def follow? (u : Url) (reference : String) : Option Url :=
  match parse? reference, reference.toList with
  | some v, _ => some v
  | none, '/' :: '/' :: _ => parse? (u.scheme ++ ":" ++ reference)
  | none, cs =>
    let (path, tail) := splitTail cs
    let path := match path with
      | [] => u.path
      | '/' :: rest => pathOf (Text.splitList '/' rest)
      | _ => pathOf ((Text.splitList '/' (u.path.toList.drop 1)).dropLast ++ Text.splitList '/' path)
    some { u with path, tail }

end Url

end Depot
