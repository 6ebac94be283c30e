import Depot.Text

/-!
# Life cycle

The states of an object or a bucket. An upload goes from `upload` to `ready` or `uploadFailed`, a
deletion from `deleting` to `deleted` or `deletionFailed`.
-/

namespace Depot

/-- The state of an object or a bucket. -/
inductive Status where
  | unknown
  /-- Bytes are being received. -/
  | upload
  | ready
  | uploadFailed
  | deleting
  | deleted
  | deletionFailed
  deriving DecidableEq, Repr

namespace Status

/-- The name of a state, in headers, in JSON and in tables. -/
def name : Status → String
  | unknown => "UNKNOWN"
  | upload => "UPLOAD"
  | ready => "READY"
  | uploadFailed => "ERR_UPL"
  | deleting => "DELETING"
  | deleted => "DELETED"
  | deletionFailed => "ERR_DEL"

def all : List Status :=
  [unknown, upload, ready, uploadFailed, deleting, deleted, deletionFailed]

def ofName? (s : String) : Option Status := all.find? fun t => t.name == s

/-- The state that a text names, whatever its case and the blanks around it. -/
def parse? (s : String) : Option Status := ofName? (Text.upper (Text.trim s))

/-- The state that a text names, `unknown` if it names none. -/
def parse (s : String) : Status := (parse? s).getD .unknown

/-- Whether a new entry may take the place of one in this state. -/
def isReplaceable : Status → Bool
  | unknown | deleted => true
  | _ => false

theorem ofName?_name (t : Status) : ofName? t.name = some t := by cases t <;> decide

end Status

end Depot
