import Depot.Catalog
import Depot.Peer
import Depot.Storage
import Depot.Store.Program

/-!
# Stores

A store is a catalog and a storage. It performs the calls of programs. A store on its own has no peer.
-/

namespace Depot

structure Store where
  catalog : Catalog := .memory {}
  storage : Storage := .memory {}
  deriving DecidableEq, Repr

namespace Store

/-- An answer that leaves the catalog changed. -/
def cataloged {α : Type} (s : Store) (a : α × Catalog) : α × Store := (a.1, { s with catalog := a.2 })

/-- An answer that leaves the storage changed. -/
def stored {α : Type} (s : Store) (a : α × Storage) : α × Store := (a.1, { s with storage := a.2 })

def reply {α : Type} (a : Except StoreError α × Store) : Reply α × Store := (.ofExcept a.1, a.2)

def perform (c : Call) (s : Store) : Reply c.Answer × Store :=
  match c with
  | .createBucket r => let (a, s) := s.cataloged (s.catalog.createBucket r); (.ok a, s)
  | .getBucket name => (.ok (s.catalog.getBucket name), s)
  | .listBuckets => (.ok s.catalog.listBuckets, s)
  | .setBucketStatus name t => reply (s.cataloged (s.catalog.setBucketStatus name t))
  | .getObject k => (.ok (s.catalog.getObject k), s)
  | .insertObject r => reply (s.cataloged (s.catalog.insertObject r))
  | .updateObject r => reply (s.cataloged (s.catalog.updateObject r))
  | .listObjects bucket f => (.ok (s.catalog.listObjects bucket f), s)
  | .makeContainer bucket => reply (s.stored (s.storage.createBucket bucket))
  | .intake _ => (.ok none, s)
  | .stage path => reply (s.stored (s.storage.stage path))
  | .put path bytes => reply (s.stored (s.storage.put path bytes))
  | .openBytes path => (.ofExcept ((s.storage.get path).map Source.ofBytes), s)
  | .hasBytes path => (.ofExcept (s.storage.has path), s)
  | .eraseBytes path => reply (s.stored (s.storage.erase path))
  | .eraseContainer bucket => reply (s.stored (s.storage.eraseBucket bucket))
  | .fetch r => (.ofExcept (Id.run (Peer.fetch (fun u => pure (Peer.nobody u)) r)), s)

def run {α : Type} (t : Program α) (s : Store) : α × Store := t.run perform s

end Store

end Depot
