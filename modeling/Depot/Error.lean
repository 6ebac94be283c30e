import Depot.Text

/-!
# Transfer errors

The causes for which a request fails, each with its status code, its short label and its wording.
Business errors are expected outcomes; the others are raised by the engine itself.
-/

namespace Depot

/-- Why a request failed. -/
inductive TransferError where
  /-- The addressed item does not exist, or is not readable yet. -/
  | notFound (message : String)
  | alreadyExists (message : String)
  | deleted (message : String)
  /-- The request is refused in the current state. -/
  | notAcceptable (message : String)
  | invalidArgument (message : String)
  /-- Another status from 400 to 499. -/
  | client (status : Nat) (message : String)
  /-- A status from 500 on. -/
  | server (status : Nat) (message : String)
  /-- The backend did not take in the body in time. -/
  | timeout (message : String)
  /-- A compressed payload is malformed. -/
  | codec (message : String)
  /-- An operation was used out of order. -/
  | invalidState (message : String)
  | internal (message : String)
  deriving DecidableEq, Repr

namespace TransferError

/-- The item exists in a state that forbids the operation. -/
def conflict (message : String) : TransferError := .client 409 message

/-- The error that a status code stands for, such as one that a peer answered. -/
def ofStatus (status : Nat) (message : String) : TransferError :=
  if status = 404 then .notFound message
  else if status = 409 then .alreadyExists message
  else if status = 410 then .deleted message
  else if status = 406 then .notAcceptable message
  else if status = 400 then .invalidArgument message
  else if 400 ≤ status ∧ status < 500 then .client status message
  else if 500 ≤ status ∧ status < 600 then .server status message
  else .server 500 message

def status : TransferError → Nat
  | .notFound _ => 404
  | .alreadyExists _ => 409
  | .deleted _ => 410
  | .notAcceptable _ => 406
  | .invalidArgument _ => 400
  | .client status _ | .server status _ => status
  | .timeout _ | .codec _ | .invalidState _ | .internal _ => 500

/-- Whether the error is an expected outcome. -/
def isBusiness : TransferError → Bool
  | .timeout _ | .codec _ | .invalidState _ | .internal _ => false
  | _ => true

def kind : TransferError → String
  | .notFound _ => "not_found"
  | .alreadyExists _ => "already_exists"
  | .deleted _ => "deleted"
  | .notAcceptable _ => "not_acceptable"
  | .invalidArgument _ => "invalid_argument"
  | .client _ _ => "client"
  | .server _ _ => "server"
  | .timeout _ => "timeout"
  | .codec _ => "codec"
  | .invalidState _ => "state"
  | .internal _ => "internal"

def message : TransferError → String
  | .notFound m | .alreadyExists m | .deleted m | .notAcceptable m | .invalidArgument m
  | .client _ m | .server _ m | .timeout m => m
  | .codec m => "codec failure: " ++ m
  | .invalidState m => "invalid state: " ++ m
  | .internal m => "internal error: " ++ m

end TransferError

/-- A text that fits into a header value: printable ASCII and blanks stay, every other character
becomes a question mark. -/
def headerSafe (s : String) : String :=
  String.ofList (s.toList.map fun c => if ' ' ≤ c ∧ c ≤ '~' then c else '?')

end Depot
