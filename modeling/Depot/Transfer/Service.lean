import Depot.Stream.Description
import Depot.Transfer.Hooks

/-!
# Serving transfers

Every transfer runs on a worker of its own. Its ending becomes an answer that can go over the wire; a
worker that crashes is answered for as well.
-/

namespace Depot

/-- What is said of a worker that crashed. -/
def workerCrash (worker : Nat) (message : String) : String :=
  s!"task {worker} panicked with message {describeText message}"

namespace Ending

def toAnswer (e : Ending) (session : Session) (moduleName : String) (worker : Nat) : Answer :=
  match e with
  | answered a | failed _ a => a.onWire
  | crashed message =>
    Answer.ofError (.internal s!"transfer worker failed: {workerCrash worker message}")
      session.operationId moduleName

end Ending

end Depot
