import Depot.Command
import Depot.Config.Reader
import Depot.Gateway
import Depot.Log
import Depot.Store

/-!
# Starting and stopping

What happens from the reading of the configuration to the end: the messages, what makes the start fail,
and the gateway that the configuration describes.
-/

namespace Depot

namespace Config

/-- The gateway that a configuration describes. -/
def gateway (c : Config) : Gateway where
  site := c.server.site
  digest := c.transfer.digest
  settings := c.settings
  peerUrl := c.peer.url
  metrics := c.metrics

def address (c : Config) (o : Options) : String :=
  o.bind.getD (c.server.host ++ ":" ++ toString c.server.port)

end Config

def hostAndPort (address : String) : Except String (String × Nat) :=
  match (Text.split ':' address).reverse with
  | port :: rest@(_ :: _) =>
    match Text.unsigned? 0x10000 port with
    | some n => .ok (":".intercalate rest.reverse, n)
    | none => .error "invalid port value"
  | _ => .error "invalid socket address"

/-- The path of the directory in which a path ends, empty for the directory where the program runs. -/
def parentPath (path : String) : String :=
  let names := ((Text.split '/' path).filter (· ≠ "")).dropLast
  (if path.startsWith "/" then "/" else "") ++ "/".intercalate names

/-- What the program has around it: whether a directory can be made with those above it, and whether a
host and a port can be listened on. -/
structure Surroundings where
  makeDirectory : String → Except StoreError Unit := fun _ => .ok ()
  canListen : String → Nat → Except String Unit := fun _ _ => .ok ()

/-- A program that was started: its messages, and how the start failed, if it did. -/
structure Startup where
  messages : List Message := []
  failure : Option String := none
  store : Store := {}

namespace Startup

def note (s : Startup) (level : Level) (text : String) (values : List (String × String)) : Startup :=
  { s with messages := s.messages ++ [⟨level, text, values⟩] }

def fail (s : Startup) (message : String) : Startup := { s with failure := some message }

/-- Open the catalog. One on disk needs the directory of its file. -/
def openCatalog (w : Surroundings) (c : Config) (s : Startup) : Startup :=
  let parent := parentPath c.catalog.path
  let made := if c.catalog.engine = "sqlite" ∧ parent ≠ "" then w.makeDirectory parent else .ok ()
  match made.bind fun () => Catalog.open' c.catalog.engine with
  | .error e => s.fail e.message
  | .ok catalog =>
    ({ s with store := { s.store with catalog } } : Startup).note .info "object catalog ready"
      [("engine", c.catalog.engine)]

/-- Open the storage. One on disk needs its directory. -/
def openStorage (w : Surroundings) (c : Config) (s : Startup) : Startup :=
  let made := if c.storage.backend = "local" then w.makeDirectory c.storage.root else .ok ()
  match made.bind fun () => Storage.open' c.storage.backend c.storage.limit with
  | .error e => s.fail e.message
  | .ok storage =>
    ({ s with store := { s.store with storage } } : Startup).note .info "storage backend ready"
      [("backend", c.storage.backend)]

def checkPeer (c : Config) (s : Startup) : Startup :=
  if c.peer.url.isEmpty then
    s.note .warn "no peer site configured; remote reads will be refused" []
  else s

def listen (w : Surroundings) (address : String) (s : Startup) : Startup :=
  match hostAndPort address >>= fun a => w.canListen a.1 a.2 with
  | .error message => s.fail message
  | .ok () => s.note .info s!"RelayStore listening on {address}" []

/-- Take the steps of a start until one of them fails. -/
def steps (s : Startup) : List (Startup → Startup) → Startup
  | [] => s
  | step :: rest => if s.failure.isSome then s else steps (step s) rest

def run (w : Surroundings) (o : Options) (c : Config) : Startup :=
  steps {} [
    (·.note .info s!"Loaded configuration from {o.configPath}" []),
    fun s => if c.metrics then s.note .info "Prometheus metrics initialized" [] else s,
    openCatalog w c,
    openStorage w c,
    checkPeer c,
    listen w (c.address o)]

def signalled (signal : String) : Message := ⟨.info, s!"Received {signal}, shutting down", []⟩

/-- What is said at the end, when open requests were done in time or not. -/
def ended (inTime : Bool) : List Message :=
  (if inTime then [] else [⟨.warn, "shutdown timeout elapsed with requests still in flight", []⟩]) ++
    [⟨.info, "RelayStore shut down", []⟩]

def failureText (message : String) : String := s!"Error: {message}\n"

end Startup

end Depot
