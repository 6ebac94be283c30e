import Depot.Proofs.Store.Snapshot
import Depot.Storage.Memory

/-!
# What the storage in memory holds

The operations of the storage in memory, as a store with any catalog sees them.

## Main results

* `MemoryStorage.allows_put` — bytes are put in place, or the storage stays as it is.
-/

namespace Depot

namespace SortedMap

variable {κ α : Type} [DecidableEq κ]

theorem get?_filter (m : SortedMap κ α) (p : κ → Bool) (key : κ) :
    get? (m.filter fun e => p e.1) key = if p key then get? m key else none := by
  induction m with
  | nil => simp [get?]
  | cons e rest ih =>
    by_cases he : e.1 = key <;> cases hp : p e.1 <;> simp_all [get?]

end SortedMap

namespace MemoryStorage

variable {T : Terms} (s : MemoryStorage) (b : String → Option Status) (o : Key → Option Entry)

/-- What the storage holds, beside some catalog. -/
def view : Snapshot := ⟨b, o, SortedMap.get? s.objects⟩

variable (path bucket : String) (bytes : Bytes)

theorem view_put (counter : UInt64) :
    ({ s with objects := SortedMap.insert s.objects path bytes, counter := counter } : MemoryStorage).view b o =
      (s.view b o).setBytes path (some bytes) := by
  refine Snapshot.ext rfl rfl (funext fun p => ?_)
  exact SortedMap.get?_insert s.objects path p bytes

/-- Bytes are put in place, or the storage stays as it is. -/
theorem allows_put : (s.view b o).Allows T (.put path bytes) (.ofExcept (s.put path bytes).1)
    ((s.put path bytes).2.view b o) := by
  unfold put
  dsimp only
  split
  · exact .inr ⟨fun n hn => (by cases hn), rfl⟩
  · exact .inl ⟨bytes.length, rfl, s.view_put b o path bytes _⟩

theorem allows_get : (s.view b o).Allows T (.openBytes path)
    (.ofExcept ((s.get path).map Source.ofBytes)) (s.view b o) := by
  refine ⟨rfl, fun bytes h => ?_⟩
  rw [get, show SortedMap.get? s.objects path = some bytes from h]
  exact ⟨_, rfl, Source.clean_ofBytes bytes, Source.bytes_ofBytes bytes⟩

theorem allows_erase : (s.view b o).Allows T (.eraseBytes path) (.ok ()) ((s.erase path).view b o) := by
  refine .inl ⟨rfl, Snapshot.ext rfl rfl (funext fun p => ?_)⟩
  exact SortedMap.get?_erase s.objects path p

/-- The container of a bucket is all that goes with it. -/
theorem get?_eraseBucket (other : String) : SortedMap.get? (s.eraseBucket bucket).objects other =
    if isInside bucket other then none else SortedMap.get? s.objects other := by
  refine (SortedMap.get?_filter s.objects (fun key => !isInside bucket key) other).trans ?_
  cases isInside bucket other <;> rfl

theorem allows_eraseBucket :
    (s.view b o).Allows T (.eraseContainer bucket) (.ok ()) ((s.eraseBucket bucket).view b o) := by
  refine .inl ⟨rfl, Snapshot.ext rfl rfl (funext fun p => ?_)⟩
  rw [Snapshot.bytes?_clear]
  exact get?_eraseBucket s bucket p

end MemoryStorage

end Depot
