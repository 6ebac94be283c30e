import Depot.Error
import Depot.Header
import Depot.Json
import Depot.Outlet

/-!
# Answers

What a request is answered with: a status, a block of headers and a payload.
-/

namespace Depot

inductive Payload where
  | empty
  | json (value : Json)
  | text (s : String)
  | stream (outlet : Outlet)

structure Answer where
  status : Nat
  fields : Fields := []
  payload : Payload := .empty

namespace Answer

/-- The answer with those headers that can go over the wire. -/
def onWire (a : Answer) : Answer := { a with fields := a.fields.onWire }

/-- Send the payload, a stream in buffers of `buffer` bytes: what was sent, and what broke it off. -/
def send (a : Answer) (buffer : Nat) : Bytes × Option ReadError :=
  match a.payload with
  | .empty => ([], none)
  | .json value => (Bytes.ofText value.compact, none)
  | .text s => (Bytes.ofText s, none)
  | .stream outlet => outlet.send buffer

/-- The answer to a failed request, which has headers only. -/
def ofError (e : TransferError) (operationId moduleName : String) : Answer where
  status := e.status
  fields := [(Header.operationId, headerSafe operationId), (Header.error, headerSafe e.message),
    (Header.moduleName, headerSafe moduleName), (Header.connection, "close")]

/-- The name of the gateway, for errors outside of any request. -/
def gatewayName : String := "relaystore"

end Answer

end Depot
