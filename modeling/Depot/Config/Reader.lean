import Depot.Config
import Depot.Stream.Description
import Depot.Yaml.Node

/-!
# Reading a configuration

A configuration is a document of nested mappings. Unknown keys are passed over, a known key may occur
once, and nothing at all in place of a mapping leaves every default. Texts take any scalar as it is
written; numbers and truth values have to be plain.
-/

namespace Depot

open Yaml (Mark Node Style Document)

/-- Why there is no configuration. -/
inductive ConfigError where
  | unreadable (error : ReadError)
  | malformed (error : Yaml.Error)
  /-- A value, at a path of keys, does not fit. -/
  | invalid (path : List String) (message : String) (mark : Mark)
  deriving DecidableEq, Repr

def ConfigError.message : ConfigError → String
  | unreadable e => e.message
  | malformed e => e.message
  | invalid path message mark =>
    (if path.isEmpty then "" else ".".intercalate path ++ ": ") ++ message ++
      (if mark.isStart then "" else " at " ++ mark.text)

namespace Config.Reader

/-- Where a value stands: its document, and the keys that lead to it. -/
structure Place where
  document : Document
  path : List String := []

abbrev Result (α : Type) := Except ConfigError α

/-- A node, or the one that an alias means. -/
def target (d : Document) : Node → Node
  | .reference n mark => (d.anchored.lookup n).getD (.scalar "" .plain none mark)
  | node => node

def markOf : Node → Mark
  | .scalar _ _ _ m | .sequence _ m | .mapping _ m | .reference _ m => m

/-! ## Plain scalars -/

def digits? (base : Nat) (cs : List Char) : Option Nat :=
  if cs.isEmpty then none
  else cs.foldlM (fun n c => ((Text.hexDigit? c).filter (· < base)).map (base * n + ·)) 0

/-- Decimal digits. Of several digits the first one is not zero. -/
def decimal? (cs : List Char) : Option Nat :=
  if 1 < cs.length ∧ cs.head? = some '0' then none else digits? 10 cs

/-- A number without a sign: decimal, or in another base that its beginning tells. -/
def magnitude? : List Char → Option Nat
  | '0' :: 'x' :: cs => digits? 16 cs
  | '0' :: 'o' :: cs => digits? 8 cs
  | '0' :: 'b' :: cs => digits? 2 cs
  | cs => decimal? cs

def integer? (s : String) : Option Int :=
  match s.toList with
  | '-' :: cs => (magnitude? cs).map fun n => -(n : Int)
  | '+' :: cs => (magnitude? cs).map Int.ofNat
  | cs => (magnitude? cs).map Int.ofNat

def bool? (s : String) : Option Bool :=
  if ["true", "True", "TRUE"].contains s then some true
  else if ["false", "False", "FALSE"].contains s then some false
  else none

/-- Whether a scalar stands for nothing. -/
def isNull (s : String) : Bool := ["", "~", "null", "Null", "NULL"].contains s

/-- Whether a scalar is a number with a fraction or an exponent. -/
def isFraction (s : String) : Bool :=
  let cs := match s.toList with
    | '-' :: rest | '+' :: rest => rest
    | cs => cs
  let whole := cs.takeWhile Char.isDigit
  let fraction := match cs.drop whole.length with
    | '.' :: rest => rest.takeWhile Char.isDigit
    | _ => []
  let rest := match cs.drop whole.length with
    | '.' :: rest => rest.drop fraction.length
    | rest => rest
  let isExponent := match rest with
    | [] => true
    | e :: '-' :: n | e :: '+' :: n => (e == 'e' || e == 'E') && !n.isEmpty && n.all Char.isDigit
    | e :: n => (e == 'e' || e == 'E') && !n.isEmpty && n.all Char.isDigit
  [".inf", ".Inf", ".INF", ".nan", ".NaN", ".NAN"].contains (String.ofList cs) ||
    ((!whole.isEmpty || !fraction.isEmpty) && isExponent && !cs.all Char.isDigit)

/-- What a plain scalar looks like to a reader that expects something else. -/
def described (s : String) : String :=
  if isNull s then "unit value"
  else match bool? s, integer? s with
    | some b, _ => s!"boolean `{b}`"
    | none, some n =>
      if -0x8000000000000000 ≤ n ∧ n < Text.wordBound then s!"integer `{n}`"
      else if n < 0 then s!"integer `{n}` as i128"
      else s!"integer `{n}` as u128"
    | none, none => if isFraction s then s!"floating point `{s}`" else s!"string {describeText s}"

/-! ## Values -/

/-- What a node looks like to a reader that expects something else. -/
def shape : Node → String
  | .scalar s .plain _ _ => described s
  | .scalar s _ _ _ => s!"string {describeText s}"
  | .sequence _ _ => "sequence"
  | .mapping _ _ => "map"
  | .reference _ _ => "alias"

/-- The refusal of a node of the wrong type. -/
def mistyped {α : Type} (p : Place) (node : Node) (expected : String) : Result α :=
  .error (.invalid p.path s!"invalid type: {shape node}, expected {expected}" (markOf node))

/-- The text of a scalar that is plain, or a literal block with the given tag. -/
def plain? (tag : String) : Node → Option String
  | .scalar s .plain _ _ => some s
  | .scalar s .literal (some t) _ => if t = "tag:yaml.org,2002:" ++ tag then some s else none
  | _ => none

def text (p : Place) (node : Node) : Result String :=
  match target p.document node with
  | .scalar s _ _ _ => .ok s
  | other => mistyped p other "a string"

def bool (p : Place) (node : Node) : Result Bool :=
  let node := target p.document node
  match (plain? "bool" node).bind bool? with
  | some b => .ok b
  | none => mistyped p node "a boolean"

/-- A number of sixty-four bits, with a sign or without one. -/
def word? (isSigned : Bool) (s : String) : Option Int :=
  if isSigned then (integer? s).filter fun n => -0x8000000000000000 ≤ n ∧ n < 0x8000000000000000
  else if s.startsWith "-" then none
  else (integer? s).filter (· < Text.wordBound)

def number (isSigned : Bool) (least most : Int) (expected : String) (p : Place) (node : Node) :
    Result Int :=
  let node := target p.document node
  match (plain? "int" node).bind (word? isSigned) with
  | none => mistyped p node expected
  | some n =>
    if least ≤ n ∧ n ≤ most then .ok n
    else .error (.invalid p.path s!"invalid value: integer `{n}`, expected {expected}" (markOf node))

/-- Read a number without a sign, below a bound. -/
def natural (bound : Nat) (expected : String) (p : Place) (node : Node) : Result Nat := do
  return (← number false 0 (bound - 1) expected p node).toNat

/-! ## Sections -/

/-- How a known key changes what is being read. -/
abbrev Keys (σ : Type) := List (String × (Place → Node → σ → Result σ))

/-- A key whose value is read by `read` and taken over by `set`. -/
def key {σ α : Type} (name : String) (read : Place → Node → Result α) (set : σ → α → σ) :
    String × (Place → Node → σ → Result σ) :=
  (name, fun p node s => (read p node).map (set s))

/-- Read the entries of a mapping; `seen` are the known keys so far. -/
def entries {σ : Type} (p : Place) (mark : Mark) (keys : Keys σ) :
    List String → List (Node × Node) → σ → Result σ
  | _, [], s => .ok s
  | seen, (name, value) :: rest, s =>
    match target p.document name with
    | .scalar name _ _ _ =>
      match keys.lookup name with
      | none => entries p mark keys seen rest s
      | some read =>
        if seen.contains name then
          .error (.invalid p.path s!"duplicate field `{name}`" mark)
        else match read { p with path := p.path ++ [name] } value s with
          | .error e => .error e
          | .ok s => entries p mark keys (name :: seen) rest s
    | other => mistyped p other "field identifier"

/-- Read a mapping with known keys. -/
def mapping {σ : Type} (expected : String) (keys : Keys σ) (start : σ) (p : Place) (node : Node) :
    Result σ :=
  match target p.document node with
  | .mapping es mark => entries p mark keys [] es start
  | .scalar "" .plain _ _ => .ok start
  | other => mistyped p other expected

def port : Place → Node → Result Nat := natural 0x10000 "u16"

def size : Place → Node → Result Nat := natural Text.wordBound "u64"

def level : Place → Node → Result Int := number true (-0x80000000) 0x7FFFFFFF "i32"

def server : Place → Node → Result ServerConfig :=
  mapping "struct ServerConfig" [
    key "host" text fun c v => { c with host := v },
    key "port" port fun c v => { c with port := v },
    key "site" text fun c v => { c with site := v },
    key "module" text fun c v => { c with moduleName := v },
    key "shutdown_timeout" size fun c v => { c with shutdownTimeout := v }] {}

def transfer : Place → Node → Result TransferConfig :=
  mapping "struct TransferConfig" [
    key "response_timeout_ms" size fun c v => { c with responseTimeout := v },
    key "max_wait_ms" size fun c v => { c with maxWait := v },
    key "buffer_size" (natural Text.wordBound "usize") fun c v => { c with bufferSize := v },
    key "compute_sha256" bool fun c v => { c with digest := v },
    key "compression_level" level fun c v => { c with compressionLevel := v }] {}

def catalog : Place → Node → Result CatalogConfig :=
  let path : Place → Node → Result String :=
    mapping "struct SqliteConfig" [key "path" text fun _ v => v] ({} : CatalogConfig).path
  mapping "struct MetadataConfig" [
    key "engine" text fun c v => { c with engine := v },
    key "sqlite" path fun c v => { c with path := v }] {}

def storage : Place → Node → Result StorageConfig :=
  let root : Place → Node → Result String :=
    mapping "struct LocalStorageConfig" [key "root_dir" text fun _ v => v] ({} : StorageConfig).root
  let limit : Place → Node → Result Nat :=
    mapping "struct MemoryStorageConfig" [key "max_size_bytes" size fun _ v => v] 0
  mapping "struct StorageConfig" [
    key "backend" text fun c v => { c with backend := v },
    key "local" root fun c v => { c with root := v },
    key "memory" limit fun c v => { c with limit := v }] {}

def peer : Place → Node → Result PeerConfig :=
  mapping "struct ReplicatorConfig" [
    key "peer_url" text fun c v => { c with url := v },
    key "connect_timeout" size fun c v => { c with connectTimeout := v }] {}

def log : Place → Node → Result LogConfig :=
  mapping "struct LoggingConfig" [
    key "level" text fun c v => { c with level := v },
    key "format" text fun c v => { c with format := v }] {}

def metrics : Place → Node → Result Bool :=
  mapping "struct ObservabilityConfig" [key "metrics" bool fun _ v => v] true

def config : Place → Node → Result Config :=
  mapping "struct Config" [
    key "server" server fun c v => { c with server := v },
    key "transfer" transfer fun c v => { c with transfer := v },
    key "metadata" catalog fun c v => { c with catalog := v },
    key "storage" storage fun c v => { c with storage := v },
    key "replicator" peer fun c v => { c with peer := v },
    key "logging" log fun c v => { c with log := v },
    key "observability" metrics fun c v => { c with metrics := v }] {}

end Config.Reader

namespace Config

/-- The configuration that a document writes. -/
def ofText (s : String) : Except ConfigError Config :=
  match Document.ofText s with
  | .error e => .error (.malformed e)
  | .ok d =>
    match d.root with
    | none => .ok {}
    | some node => Reader.config { document := d } node

/-- The error of a file that is not a text. -/
def notText : ReadError := ⟨.invalidData, "stream did not contain valid UTF-8", false⟩

def noFile : ReadError := ⟨.notFound, "No such file or directory (os error 2)", false⟩

def ofBytes (bytes : Bytes) : Except ConfigError Config :=
  match Bytes.text? bytes with
  | some s => ofText s
  | none => .error (.unreadable notText)

end Config

end Depot
