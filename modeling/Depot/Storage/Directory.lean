import Depot.SortedMap
import Depot.StoreError
import Depot.Text

/-!
# Storage in a directory

Keys are relative paths of files below a root directory. Bytes are first written to a file in a
staging directory, which is then moved to its place, so a file is either absent or whole. The
directories above a file are made when they are missing, and stay when the file goes.
-/

namespace Depot

namespace Directory

/-- What stands at a path. -/
inductive Node where
  | directory
  | file (bytes : Bytes)
  deriving DecidableEq, Repr

/-- How a path ends: in a name, in a slash, or in a dot. The last two lead to directories only. -/
inductive Tail where
  | name
  | slash
  | dot
  deriving DecidableEq, Repr

/-- A path below the root. -/
structure Path where
  segments : List String
  tail : Tail
  deriving DecidableEq, Repr

/-- What a path is made of. -/
inductive Component where
  | root
  | current
  | parent
  | normal (name : String)
  deriving DecidableEq, Repr

namespace Component

def name? : Component → Option String
  | normal name => some name
  | _ => none

/-- Whether a component stays where it is, or goes down. -/
def isBelow : Component → Bool
  | current | normal _ => true
  | root | parent => false

end Component

/-- The components of a path. Empty pieces are passed over, and so is a dot unless it comes first. -/
def components (path : String) : List Component :=
  let pieces := Text.split '/' path
  let first := if path.startsWith "/" then [.root] else if pieces.head? = some "." then [.current] else []
  let names := pieces.filter fun s => s ≠ "" ∧ s ≠ "."
  first ++ names.map fun s => if s = ".." then .parent else .normal s

/-- The path that a key writes, unless it leads out of the root. -/
def Path.parse (key : String) : Except StoreError Path :=
  let pieces := Text.split '/' key
  if (components key).all Component.isBelow then .ok {
    segments := (components key).filterMap Component.name?
    tail :=
      if (pieces.filter (· ≠ "")).getLast? = some "." then .dot
      else if pieces.getLast? = some "" then .slash
      else .name }
  else .error (.escapingKey key)

def fault (kind : ErrorKind) (message : String) : StoreError := .io ⟨kind, message, false⟩

def notFound := fault .notFound "No such file or directory (os error 2)"
def resourceBusy := fault .resourceBusy "Device or resource busy (os error 16)"
def fileExists := fault .alreadyExists "File exists (os error 17)"
def notADirectory := fault .notADirectory "Not a directory (os error 20)"
def isADirectory := fault .isADirectory "Is a directory (os error 21)"
def invalidArgument := fault .invalidInput "Invalid argument (os error 22)"
def nameTooLong := fault .invalidFilename "File name too long (os error 36)"
def nulInName := fault .invalidInput "file name contained an unexpected NUL byte"

/-- Whether a path contains a NUL, which no file operation takes. -/
def hasNul (segments : List String) : Bool :=
  segments.any fun s => s.toList.contains (Char.ofNat 0)

def staging : List String := [".tmp"]

end Directory

/-- Storage in a directory: what stands below the root, how many staged files were left behind because they
could not be moved to their place, and the length of the longest file name, if there is a limit. -/
structure Directory where
  nodes : SortedMap (List String) Directory.Node := [([".tmp"], .directory)]
  leftBehind : Nat := 0
  longest : Option Nat := some 255
  deriving DecidableEq, Repr

namespace Directory

/-- Whether a name is longer than a file name may be. -/
def isLong (d : Directory) (name : String) : Bool := d.longest.any (· < name.utf8ByteSize)

/-- What stands at a path, if it can be reached. -/
def node? (d : Directory) (segments : List String) : Option Node :=
  if segments.isEmpty then some .directory else SortedMap.get? d.nodes segments

/-- What stands at a path that may have to be a directory. -/
def find? (d : Directory) (p : Path) : Option Node :=
  match d.node? p.segments with
  | some (.file bytes) => if p.tail = .name then some (.file bytes) else none
  | n => n

/-- Make one directory; those above it are there. -/
def makeOne (d : Directory) (segments : List String) : Except StoreError Unit × Directory :=
  match d.node? segments with
  | some .directory => (.ok (), d)
  | some (.file _) => (.error fileExists, d)
  | none =>
    if segments.getLast?.any d.isLong then (.error nameTooLong, d)
    else (.ok (), { d with nodes := SortedMap.insert d.nodes segments .directory })

/-- The paths that lead to a path, from the root on, itself included. -/
def leading (segments : List String) : List (List String) :=
  (List.range segments.length).map fun i => segments.take (i + 1)

/-- Whether a path, or one that leads to it, is that of a file. -/
def crossesFile (d : Directory) (segments : List String) : Bool :=
  (leading segments).any fun p => (d.node? p).any (· ≠ .directory)

/-- Make those of some directories that are missing, one after the other. -/
def makeEach (d : Directory) : List (List String) → Except StoreError Unit × Directory
  | [] => (.ok (), d)
  | p :: rest =>
    match d.makeOne p with
    | (.ok (), d) => d.makeEach rest
    | (.error e, d) => (.error e, d)

/-- Make a directory and those above it, as far as they are missing. -/
def makeAll (d : Directory) (segments : List String) : Except StoreError Unit × Directory :=
  if hasNul segments then (.error nulInName, d)
  else if d.crossesFile segments.dropLast then (.error notADirectory, d)
  else d.makeEach (leading segments)

def createBucket (d : Directory) (bucket : String) : Except StoreError Unit × Directory :=
  match Path.parse bucket with
  | .error e => (.error e, d)
  | .ok p =>
    if p.tail = .dot ∧ d.node? p.segments ≠ some .directory then
      if d.crossesFile p.segments then (.error notADirectory, d)
      else match d.makeAll p.segments.dropLast with
        | (.ok (), d) => (.error notFound, d)
        | r => r
    else d.makeAll p.segments

/-- Get ready to write a file: make the directories above it and stage a file. -/
def stage (d : Directory) (key : String) : Except StoreError Unit × Directory :=
  match Path.parse key with
  | .error e => (.error e, d)
  | .ok p =>
    match d.makeAll p.segments.dropLast with
    | (.error e, d) => (.error e, d)
    | (.ok (), d) =>
      match d.node? staging with
      | some .directory => (.ok (), d)
      | some _ => (.error notADirectory, d)
      | none => (.error notFound, d)

/-- Why a staged file cannot be moved to a path. -/
def obstacle? (d : Directory) (p : Path) : Option StoreError :=
  if hasNul p.segments then some nulInName
  else if d.crossesFile p.segments.dropLast then some notADirectory
  else if (d.node? p.segments.dropLast).isNone then some notFound
  else if p.tail = .dot then
    some (match d.node? p.segments with
      | some .directory => resourceBusy
      | some (.file _) => notADirectory
      | none => notFound)
  else if p.tail = .slash then some notADirectory
  else if p.segments.getLast?.any d.isLong then some nameTooLong
  else if d.node? p.segments = some .directory then some isADirectory
  else none

/-- Move the staged file to its place. -/
def put (d : Directory) (key : String) (bytes : Bytes) : Except StoreError Nat × Directory :=
  match Path.parse key with
  | .error e => (.error e, d)
  | .ok p =>
    match d.obstacle? p with
    | some e => (.error e, { d with leftBehind := d.leftBehind + 1 })
    | none => (.ok bytes.length, { d with nodes := SortedMap.insert d.nodes p.segments (.file bytes) })

def get (d : Directory) (key : String) : Except StoreError Bytes := do
  match d.find? (← Path.parse key) with
  | some (.file bytes) => return bytes
  | _ => throw (.bytesMissing key)

def has (d : Directory) (key : String) : Except StoreError Bool := do
  match d.find? (← Path.parse key) with
  | some (.file _) => return true
  | _ => return false

def erase (d : Directory) (key : String) : Except StoreError Unit × Directory :=
  match Path.parse key with
  | .error e => (.error e, d)
  | .ok p =>
    match d.find? p with
    | some .directory => (.error isADirectory, d)
    | some (.file _) => (.ok (), { d with nodes := SortedMap.erase d.nodes p.segments })
    | none => (.ok (), d)

/-- Remove what is below a path, and what is at it if `itself` says so. -/
def eraseBelow (d : Directory) (segments : List String) (itself : Bool) : Directory where
  nodes := d.nodes.filter fun e =>
    !(segments.isPrefixOf e.1 && (itself || e.1.length > segments.length))
  leftBehind := if segments.isPrefixOf staging then 0 else d.leftBehind
  longest := d.longest

def eraseBucket (d : Directory) (bucket : String) : Except StoreError Unit × Directory :=
  match Path.parse bucket with
  | .error e => (.error e, d)
  | .ok p =>
    if p.segments.isEmpty || bucket.startsWith ".tmp" then (.error (.notABucket bucket), d)
    else if d.node? p.segments = some .directory then
      if p.tail = .dot then (.error invalidArgument, d.eraseBelow p.segments false)
      else (.ok (), d.eraseBelow p.segments true)
    else (.ok (), d)

/-- The paths of everything below the root, directories with a slash, in the order of their texts. -/
def tree (d : Directory) : List String :=
  let paths := d.nodes.map fun e =>
    "/".intercalate e.1 ++ (if e.2 = .directory then "/" else "")
  (paths ++ List.replicate d.leftBehind ".tmp/<tmp>").mergeSort fun a b => a ≤ b

end Directory

end Depot
