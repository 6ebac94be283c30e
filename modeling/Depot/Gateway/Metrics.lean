import Depot.SortedMap
import Depot.Text

/-!
# Metrics

Counters of what the gateway does: requests by method, kind of path and status, finished transfers, and
bytes in both directions. Paths are counted under their kind, so that names do not become labels.
-/

namespace Depot

inductive TransferKind where
  | upload
  | download
  | list
  deriving DecidableEq, Repr

def TransferKind.name : TransferKind → String
  | upload => "upload"
  | download => "download"
  | list => "list"

/-- The counters, by the names under which they are exposed. -/
abbrev Metrics := SortedMap String Nat

namespace Metrics

/-- The name of a counter with its labels. -/
def series (name : String) (labels : List (String × String)) : String :=
  if labels.isEmpty then name
  else name ++ "\x7b" ++ ",".intercalate (labels.map fun l => l.1 ++ "=\"" ++ l.2 ++ "\"") ++ "\x7d"

/-- Requests by method, kind of path and status. -/
def requests (method path : String) (status : Nat) : String :=
  series "relaystore_http_requests_total"
    [("method", method), ("path", path), ("status", toString status)]

def timed (method path : String) : String :=
  series "relaystore_http_request_duration_seconds_count" [("method", method), ("path", path)]

/-- Transfers by what they did and their status. -/
def transfers (kind : TransferKind) (status : Nat) : String :=
  series "relaystore_transfers_total" [("operation", kind.name), ("status", toString status)]

def received : String := series "relaystore_bytes_received_total" []

def sent : String := series "relaystore_bytes_sent_total" []

/-- Add to a counter; nothing is added to a counter that would stay at zero. -/
def add (m : Metrics) (name : String) (n : Nat) : Metrics :=
  if n = 0 then m else m.insert name ((m.get? name).getD 0 + n)

def text (m : Metrics) : String :=
  String.join (m.map fun e => e.1 ++ " " ++ toString e.2 ++ "\n")

/-- The first pieces of a path, at most `n`; the last one holds the rest. -/
def pieces (n : Nat) (path : String) : List String :=
  let all := Text.split '/' path
  if all.length ≤ n then all
  else all.take (n - 1) ++ ["/".intercalate (all.drop (n - 1))]

def pathKind (path : String) : String :=
  match pieces 4 (String.ofList (Text.trimList (· == '/') path.toList)) with
  | [""] => "/"
  | ["health"] | ["metrics"] => path
  | ["buckets"] => "/buckets"
  | ["buckets", _] => "/buckets/\x7bbucket\x7d"
  | ["objects", _] => "/objects/\x7bbucket\x7d"
  | "objects" :: _ :: _ => "/objects/\x7bbucket\x7d/\x7bname\x7d"
  | "replicator" :: "objects" :: _ :: _ :: _ => "/replicator/objects/\x7bbucket\x7d/\x7bname\x7d"
  | _ => "/\x7bother\x7d"

end Metrics

end Depot
