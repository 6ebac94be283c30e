import Depot.Text

/-!
# The command line

The options of the gateway, and what is printed when the arguments are not understood, or when nothing
but information is asked for.
-/

namespace Depot

/-- What the arguments say. -/
structure Options where
  configPath : String := "relaystore.example.yaml"
  /-- The address to listen on, in place of the configured one. -/
  bind : Option String := none
  deriving DecidableEq, Repr

/-- An option that takes a value. -/
inductive OptionName where
  | config
  | bind
  deriving DecidableEq, Repr

namespace OptionName

def long : OptionName → String
  | config => "config"
  | bind => "bind"

def letter : OptionName → Char
  | config => 'c'
  | bind => 'b'

/-- An option with the name of its value. -/
def usage (o : OptionName) : String := "--" ++ o.long ++ " <" ++ Text.upper o.long ++ ">"

def all : List OptionName := [config, bind]

end OptionName

/-- Why the arguments are not understood. -/
inductive UsageError where
  /-- An argument is not known; a known one may look alike, and others were given before it. -/
  | unexpected (argument : String) (similar : Option String) (given : List String)
  | missingValue (o : OptionName)
  | repeated (o : OptionName)
  /-- A value for an option that takes none. -/
  | unneeded (value option : String) (given : List String)
  deriving DecidableEq, Repr

namespace UsageError

def usageLine (given : List String) : String :=
  "Usage: relaystore " ++ (if given.isEmpty then "[OPTIONS]" else " ".intercalate given) ++ "\n\n"

def message (e : UsageError) : String :=
  let body := match e with
    | unexpected argument similar given =>
      s!"unexpected argument '{argument}' found\n\n" ++
        (match similar with
          | some s => s!"  tip: a similar argument exists: '{s}'\n\n"
          | none => "") ++ usageLine given
    | missingValue o => s!"a value is required for '{o.usage}' but none was supplied\n\n"
    | repeated o => s!"the argument '{o.usage}' cannot be used multiple times\n\n" ++ usageLine []
    | unneeded value option given =>
      s!"unexpected value '{value}' for '{option}' found; no more were expected\n\n" ++
        usageLine given
  "error: " ++ body ++ "For more information, try '--help'.\n"

end UsageError

inductive Command where
  | run (o : Options)
  | help
  | version
  | refused (e : UsageError)
  deriving DecidableEq, Repr

namespace Command

def helpText : String :=
  "Multi-site object storage gateway\n\n" ++ UsageError.usageLine [] ++ "Options:\n" ++
    "  -c, --config <CONFIG>  Path to the YAML configuration file " ++
    s!"[default: {({} : Options).configPath}]\n" ++
    "  -b, --bind <BIND>      Override the bind address (host:port)\n" ++
    "  -h, --help             Print help\n" ++
    "  -V, --version          Print version\n"

def versionText : String := "relaystore 0.1.0\n"

/-! ## Names that look alike -/

/-- Mark the first unmarked element equal to `x` that stands from `low` up to `high`. -/
def claim (x : Char) (low high : Nat) : Nat → List (Char × Bool) → Option (List (Char × Bool))
  | _, [] => none
  | i, (y, taken) :: rest =>
    if x = y ∧ !taken ∧ low ≤ i ∧ i < high then some ((y, true) :: rest)
    else (claim x low high (i + 1) rest).map ((y, taken) :: ·)

/-- The elements of `xs` that have a partner near their own place in `ys`, and the marked `ys`. -/
def partners (reach : Nat) : Nat → List Char → List (Char × Bool) → List Char × List (Char × Bool)
  | _, [], ys => ([], ys)
  | i, x :: xs, ys =>
    match claim x (i - reach) (i + reach + 1) 0 ys with
    | some ys => let (found, ys) := partners reach (i + 1) xs ys; (x :: found, ys)
    | none => partners reach (i + 1) xs ys

/-- How much two names look alike, in thousandths: the mean of the shares of characters that have a
partner, and of the share of those that come in the same order. -/
def likeness (a b : String) : Nat :=
  let xs := a.toList
  let ys := b.toList
  let (m, n) := (xs.length, ys.length)
  let (found, marked) := partners (max m n / 2 - 1) 0 xs (ys.map (·, false))
  let other := (marked.filter (·.2)).map (·.1)
  let k := found.length
  if m = 0 ∧ n = 0 then 1000
  else if k = 0 then 0
  else
    let moved := ((found.zip other).filter fun e => e.1 ≠ e.2).length / 2
    (1000 * k * k * n + 1000 * k * k * m + 1000 * (k - moved) * m * n) / (3 * m * n * k)

/-- The least likeness that is worth a hint. -/
def minLikeness : Nat := 700

/-- The known long option that looks most like an unknown one. -/
def similar? (name : String) : Option String :=
  let scored := ["config", "bind", "help", "version"].map fun known => (likeness name known, known)
  let best := scored.foldl (fun best e => if best.1 < e.1 then e else best) (minLikeness, "")
  if best.2 = "" then none else some best.2

/-! ## Reading arguments -/

/-- What the arguments before the current one gave. -/
structure Given where
  config : Option String := none
  bind : Option String := none

namespace Given

def value? (g : Given) : OptionName → Option String
  | .config => g.config
  | .bind => g.bind

def set (g : Given) (o : OptionName) (v : String) : Except UsageError Given :=
  if (g.value? o).isSome then .error (.repeated o)
  else .ok (match o with
    | .config => { g with config := some v }
    | .bind => { g with bind := some v })

/-- The options that were given, with the names of their values. -/
def shown (g : Given) : List String :=
  (OptionName.all.filter fun o => (g.value? o).isSome).map OptionName.usage

def options (g : Given) : Options :=
  { configPath := g.config.getD ({} : Options).configPath, bind := g.bind }

end Given

/-- A known name, long or short. -/
inductive Flag where
  | option (o : OptionName)
  | help
  | version

def ofLong? (name : String) : Option Flag :=
  if name = "help" then some .help
  else if name = "version" then some .version
  else (OptionName.all.find? fun o => o.long == name).map .option

def ofLetter? (c : Char) : Option Flag :=
  if c = 'h' then some .help
  else if c = 'V' then some .version
  else (OptionName.all.find? fun o => o.letter == c).map .option

def unknownLong (g : Given) (name : String) : UsageError :=
  let similar := similar? name
  let hint := similar.map fun s =>
    ((OptionName.all.find? fun o => o.long == s).map OptionName.usage).getD ("--" ++ s)
  .unexpected ("--" ++ name) (similar.map ("--" ++ ·))
    (g.shown ++ (hint.toList.filter fun h => !g.shown.contains h))

/-- Whether an argument can be the value of the option before it. -/
def isValue (s : String) : Bool := !s.startsWith "-" || s == "-"

mutual

def read (g : Given) : List String → Command
  | [] => .run g.options
  | "--" :: [] => .run g.options
  | "--" :: s :: _ => .refused (.unexpected s none [])
  | s :: rest =>
    match s.toList with
    | '-' :: '-' :: cs =>
      let name := String.ofList (cs.takeWhile (· != '='))
      let attached := match cs.dropWhile (· != '=') with
        | _ :: v => some (String.ofList v)
        | [] => none
      match ofLong? name, attached with
      | none, _ => .refused (unknownLong g name)
      | some .help, none => .help
      | some .version, none => .version
      | some (.option o), none => value g o rest
      | some (.option o), some v =>
        match g.set o v with
        | .ok g => read g rest
        | .error e => .refused e
      | some _, some v => .refused (.unneeded v ("--" ++ name) g.shown)
    | '-' :: c :: cs =>
      match ofLetter? c, cs with
      | none, _ => .refused (.unexpected (String.ofList ['-', c]) none [])
      | some .help, _ => .help
      | some .version, _ => .version
      | some (.option o), [] => value g o rest
      | some (.option o), cs =>
        match g.set o (String.ofList (if cs.head? = some '=' then cs.tail else cs)) with
        | .ok g => read g rest
        | .error e => .refused e
    | _ => .refused (.unexpected s none [])

/-- Read the value of an option, and go on. An unknown argument in its place is refused first. -/
def value (g : Given) (o : OptionName) : List String → Command
  | [] => .refused (.missingValue o)
  | s :: rest =>
    if isValue s then
      match g.set o s with
      | .ok g => read g rest
      | .error e => .refused e
    else match s.toList with
      | '-' :: '-' :: c :: cs =>
        let name := String.ofList ((c :: cs).takeWhile (· != '='))
        if (ofLong? name).isNone then .refused (unknownLong g name) else .refused (.missingValue o)
      | ['-', '-'] => if rest.isEmpty then .refused (.missingValue o)
          else .refused (.unexpected (rest.headD "") none [])
      | '-' :: c :: _ =>
        if (ofLetter? c).isNone then .refused (.unexpected (String.ofList ['-', c]) none [])
        else .refused (.missingValue o)
      | _ => .refused (.missingValue o)

end

def ofArguments (arguments : List String) : Command := read {} arguments

end Command

end Depot
