import Depot.Storage.Directory
import Depot.Storage.Memory

/-!
# Storages

A storage keeps the bytes of objects under keys, in memory or in a directory. A write has two steps:
`stage`, before the first byte is read, and `put`, once all of them are there.
-/

namespace Depot

inductive Storage where
  | memory (s : MemoryStorage)
  | directory (d : Directory)
  deriving DecidableEq, Repr

namespace Storage

/-- A new storage of the named backend. The limit is for the storage in memory. -/
def open' (backend : String) (limit : Nat) : Except StoreError Storage :=
  if backend = "local" then .ok (.directory {})
  else if backend = "memory" then .ok (.memory { limit })
  else .error (.unknownBackend backend)

/-- Make the container of a bucket. -/
def createBucket (s : Storage) (bucket : String) : Except StoreError Unit × Storage :=
  match s with
  | memory m => (.ok (), memory m)
  | directory d => let (r, d) := d.createBucket bucket; (r, directory d)

/-- Get ready to write. -/
def stage (s : Storage) (key : String) : Except StoreError Unit × Storage :=
  match s with
  | memory m => (.ok (), memory m)
  | directory d => let (r, d) := d.stage key; (r, directory d)

/-- Put bytes under a key; the number of bytes put. -/
def put (s : Storage) (key : String) (bytes : Bytes) : Except StoreError Nat × Storage :=
  match s with
  | memory m => let (r, m) := m.put key bytes; (r, memory m)
  | directory d => let (r, d) := d.put key bytes; (r, directory d)

def get (s : Storage) (key : String) : Except StoreError Bytes :=
  match s with
  | memory m => m.get key
  | directory d => d.get key

def has (s : Storage) (key : String) : Except StoreError Bool :=
  match s with
  | memory m => .ok (m.has key)
  | directory d => d.has key

/-- Remove the bytes under a key, if there are any. -/
def erase (s : Storage) (key : String) : Except StoreError Unit × Storage :=
  match s with
  | memory m => (.ok (), memory (m.erase key))
  | directory d => let (r, d) := d.erase key; (r, directory d)

/-- Remove the container of a bucket and everything in it. -/
def eraseBucket (s : Storage) (bucket : String) : Except StoreError Unit × Storage :=
  match s with
  | memory m => (.ok (), memory (m.eraseBucket bucket))
  | directory d => let (r, d) := d.eraseBucket bucket; (r, directory d)

/-- Write all bytes of a source under a key, unless reading it fails. -/
def write (s : Storage) (key : String) (source : Source) : Except StoreError Nat × Storage :=
  match s.stage key with
  | (.error e, s) => (.error e, s)
  | (.ok (), s) =>
    match source.readToEnd with
    | (_, some e) => (.error (.io e), s)
    | (bytes, none) => s.put key bytes

end Storage

end Depot
