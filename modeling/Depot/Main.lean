import Depot.Network
import Std.Async.Signal

/-!
# The program

The command line: reads the configuration, starts the gateway, and serves until a signal asks for the end.
-/

namespace Depot

open Std.Async

def readConfig (path : String) : IO (Except ConfigError Config) := do
  try
    return Config.ofBytes (← IO.FS.readBinFile path).toList
  catch
    | .noFileOrDirectory .. => return .error (.unreadable Config.noFile)
    | e => return .error (.unreadable ⟨.other, toString e, false⟩)

def say (c : LogConfig) (ms : List Message) : IO Unit := do
  let out ← IO.getStdout
  for line in c.lines ms do
    out.putStrLn ((← Node.now).millisText ++ " " ++ line)
  out.flush

/-- The name of the signal that asks for the end. -/
def awaitSignal : Async String := do
  let wait (s : Signal) (name : String) : Async String := do
    let waiter ← Signal.Waiter.mk s false
    discard (await (← waiter.wait))
    return name
  Async.race (wait .sigterm "SIGTERM") (wait .sigint "SIGINT")

/-- Let open requests go on for a time, and tell whether they were done in it. -/
def stop (server : Std.Http.Server) (seconds : Nat) : Async Bool :=
  Async.race (do server.shutdownAndWait; return true)
    (do sleep (.ofNat (1000 * seconds)); return false)

/-- Serve until the end is asked for. -/
def serve (o : Options) (c : Config) : Async UInt32 := do
  let started := Startup.run {} o c
  let node : Node := ⟨c.gateway, ← IO.mkRef started.store, ← IO.mkRef []⟩
  let server ← if started.failure.isNone then node.listen (c.address o) else pure (.error "")
  let started := Startup.run { canListen := fun _ _ => server.map fun _ => () } o c
  say c.log started.messages
  match started.failure, server with
  | none, .ok server =>
    say c.log [Startup.signalled (← awaitSignal)]
    say c.log (Startup.ended (← stop server c.server.shutdownTimeout))
    return 0
  | failure, _ => do
    (← IO.getStderr).putStr (Startup.failureText (failure.getD ""))
    return 1

end Depot

open Depot in
def main (arguments : List String) : IO UInt32 := do
  match Command.ofArguments arguments with
  | .help => IO.print Command.helpText; return 0
  | .version => IO.print Command.versionText; return 0
  | .refused e => IO.eprint e.message; return 2
  | .run o =>
    match ← readConfig o.configPath with
    | .error e => IO.eprint (Startup.failureText e.message); return 1
    | .ok c => (serve o c).block
