import Depot.Store.Call
import Depot.Url

/-!
# The peer site

How a request reaches the peer site. Its address has to lead to a host over plain HTTP, somebody has to
answer there, and an answer that redirects is followed, up to a limit.
-/

namespace Depot.Peer

/-- How many redirections are followed. -/
def maxRedirects : Nat := 10

def badAddress : Option Url → StoreError
  | none => .unavailable "builder error"
  | some u => .unavailable s!"builder error for url ({u.text})"

def noAnswer (u : Url) : StoreError := .unavailable s!"error sending request for url ({u.text})"

def tooManyRedirects (u : Url) : StoreError :=
  .unavailable s!"error following redirect for url ({u.text})"

/-- Where an answer redirects to. -/
def redirection? (u : Url) (a : PeerAnswer) : Option Url :=
  if [301, 302, 303, 307, 308].contains a.status then
    (a.headers.text? "location").bind u.follow?
  else none

/-- Whether requests can be sent to an address. -/
def isReachable (u : Url) : Bool := u.host.isSome && (u.scheme == "http" || u.scheme == "https")

variable {m : Type → Type} [Monad m]

/-- Ask at an address, and where its answer redirects to. -/
def ask (site : Url → m (Option PeerAnswer)) : Nat → Url → m (Except StoreError PeerAnswer)
  | fuel, u => do
    match ← site u with
    | none => return .error (noAnswer u)
    | some a =>
      match redirection? u a, fuel with
      | none, _ => return .ok a
      | some _, 0 => return .error (tooManyRedirects u)
      | some v, fuel + 1 => if isReachable v then ask site fuel v else return .error (badAddress (some v))

/-- Send a request; `site` says what is answered at an address, if somebody answers there. -/
def fetch (site : Url → m (Option PeerAnswer)) (request : PeerRequest) :
    m (Except StoreError PeerAnswer) :=
  match Url.parse? request.url with
  | none => return .error (badAddress none)
  | some u => if isReachable u then ask site maxRedirects u else return .error (badAddress (some u))

def nobody (_ : Url) : Option PeerAnswer := none

def headersOf (r : PeerRequest) : Headers :=
  Fields.toHeaders ([(Header.operationId, r.operationId)] ++
    (if r.acceptZstd then [(Header.acceptEncoding, zstdToken)] else []) ++
    (match r.clientId with
      | some c => [(Header.clientId, c)]
      | none => []))

end Depot.Peer
