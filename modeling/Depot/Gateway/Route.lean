import Depot.Header
import Depot.Segment

/-!
# Routes

What the path of a request leads to, and with which methods it can be requested. The parts of a path
are told apart before they are decoded, so an encoded slash never separates anything.
-/

namespace Depot

/-- The methods that some route takes, and any other one. -/
inductive Method where
  | get
  | head
  | put
  | post
  | delete
  | other (name : String)
  deriving DecidableEq, Repr

namespace Method

def name : Method → String
  | get => "GET"
  | head => "HEAD"
  | put => "PUT"
  | post => "POST"
  | delete => "DELETE"
  | other name => name

def ofName (s : String) : Method :=
  ([get, head, put, post, delete].find? fun m => m.name == s).getD (other s)

end Method

/-- What a path leads to. -/
inductive Route where
  | health
  | metrics
  | buckets
  | bucket (bucket : String)
  | objects (bucket : String)
  | object (bucket name : String)
  /-- An object of the peer site. -/
  | replica (bucket name : String)
  deriving DecidableEq, Repr

namespace Route

/-- The path of a request target, without a query and a fragment. -/
def pathOf (target : String) : String :=
  String.ofList (target.toList.takeWhile fun c => c != '?' && c != '#')

/-- What a path leads to, the parts still encoded. A part is not empty; the name of an object is all
that follows its bucket. -/
def ofPath? (path : String) : Option Route :=
  match Text.split '/' path with
  | ["", "health"] => some .health
  | ["", "metrics"] => some .metrics
  | ["", "buckets"] => some .buckets
  | ["", "buckets", b] => if b = "" then none else some (.bucket b)
  | ["", "objects", b] => if b = "" then none else some (.objects b)
  | "" :: "objects" :: b :: name =>
    if b = "" ∨ name = [""] then none else some (.object b ("/".intercalate name))
  | "" :: "replicator" :: "objects" :: b :: name =>
    if b = "" ∨ name = [] ∨ name = [""] then none else some (.replica b ("/".intercalate name))
  | _ => none

/-- The methods of a route. A `HEAD` request is answered wherever a `GET` request is. -/
def methods : Route → List Method
  | bucket _ => [.get, .head, .put, .delete]
  | object _ _ => [.get, .head, .post, .delete]
  | _ => [.get, .head]

/-- Decode a part of a path; a failure says which part it was. -/
def decodePart (part value : String) : Except String String :=
  match Segment.decode? value with
  | some s => .ok s
  | none => .error part

def decode : Route → Except String Route
  | bucket b => return .bucket (← decodePart "bucket" b)
  | objects b => return .objects (← decodePart "bucket" b)
  | object b n => return .object (← decodePart "bucket" b) (← decodePart "name" n)
  | replica b n => return .replica (← decodePart "bucket" b) (← decodePart "name" n)
  | r => return r

end Route

end Depot
