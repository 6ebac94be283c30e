import Depot.Proofs.Catalog.Table
import Depot.Proofs.Storage.Memory
import Depot.Proofs.Store.Program
import Depot.Store.Faulty

/-!
# Stores that keep the contract

A store with its storage in memory keeps the contract of calls, with either catalog. So does one whose
storage fails where it may.

## Main results

* `Store.contract` — a store with its storage in memory.
* `Faults.contract` — such a store with faults in its storage.
-/

namespace Depot

/-- Whether a call is one to the storage. -/
def Call.isOfStorage : Call → Bool
  | .makeContainer _ | .intake _ | .stage _ | .put _ _ | .openBytes _ | .hasBytes _ | .eraseBytes _
  | .eraseContainer _ => true
  | _ => false

namespace Catalog

variable (T : Terms)

/-- What a catalog holds, beside some storage. -/
def view : Catalog → (String → Option Bytes) → Snapshot
  | memory c => c.view
  | table t => t.view

/-- Whether a catalog keeps its invariant, and takes the sizes that the terms name. -/
def Sound : Catalog → Prop
  | memory c => c.Sound ∧ ∀ n, T.Fits n
  | table t => t.Sound ∧ ∀ n, T.Fits n ↔ n < Table.sizeBound

end Catalog

namespace Store

variable {T : Terms} {s : Store}

/-- What a store holds. -/
def view (s : Store) : Snapshot := s.catalog.view fun path => (s.storage.get path).toOption

/-- Whether a store keeps its bytes in memory, and its catalog keeps its invariant. -/
def Sound (T : Terms) (s : Store) : Prop := s.catalog.Sound T ∧ ∃ m, s.storage = .memory m

theorem toOption_get (m : MemoryStorage) :
    (fun path => ((Storage.memory m).get path).toOption) = SortedMap.get? m.objects := by
  funext path
  simp only [Storage.get, MemoryStorage.get]
  cases SortedMap.get? m.objects path <;> rfl

theorem view_memory (c : Catalog) (m : MemoryStorage) :
    view ⟨c, .memory m⟩ = c.view (SortedMap.get? m.objects) :=
  congrArg c.view (toOption_get m)

/-- The catalog does not care what the storage holds. -/
theorem view_eq (c : Catalog) (m : MemoryStorage) :
    view ⟨c, .memory m⟩ = m.view (c.view fun _ => none).bucket? (c.view fun _ => none).object? := by
  rw [view_memory]
  cases c <;> rfl

/-- Every call keeps the invariant of the catalog. -/
theorem sound_catalog (c : Call) (hs : s.catalog.Sound T) : (s.perform c).2.catalog.Sound T := by
  obtain ⟨catalog, storage⟩ := s
  cases c with
  | createBucket r =>
    cases catalog with
    | memory c => exact ⟨hs.1.createBucket r, hs.2⟩
    | table t => exact ⟨hs.1.createBucket r, hs.2⟩
  | setBucketStatus name t =>
    cases catalog with
    | memory c => exact ⟨hs.1.setBucketStatus name t, hs.2⟩
    | table c => exact ⟨hs.1.setBucketStatus name t, hs.2⟩
  | insertObject r =>
    cases catalog with
    | memory c => exact ⟨hs.1.insertObject r, hs.2⟩
    | table t => exact ⟨hs.1.insertObject r, hs.2⟩
  | updateObject r =>
    cases catalog with
    | memory c => exact ⟨hs.1.updateObject r, hs.2⟩
    | table t => exact ⟨hs.1.updateObject r, hs.2⟩
  | _ => exact hs

/-- A call that is not to the storage is answered as the contract allows, whatever the storage holds. -/
theorem allows_catalog {c : Call} (hc : c.isOfStorage = false) (hs : s.catalog.Sound T)
    (bytes : String → Option Bytes) :
    (s.catalog.view bytes).Allows T c (s.perform c).1 ((s.perform c).2.catalog.view bytes) := by
  obtain ⟨catalog, storage⟩ := s
  cases c with
  | createBucket r =>
    cases catalog with
    | memory c => exact c.allows_createBucket _ r
    | table t => exact t.allows_createBucket _ r
  | setBucketStatus name s =>
    cases catalog with
    | memory c => exact c.allows_setBucketStatus _ name s
    | table t => exact t.allows_setBucketStatus _ name s
  | getObject k =>
    cases catalog with
    | memory c => exact c.allows_getObject _ hs.1 k
    | table t => exact t.allows_getObject _ k
  | insertObject r =>
    cases catalog with
    | memory c => exact c.allows_insertObject _ hs.2 r
    | table t => exact t.allows_insertObject _ hs.2 r
  | updateObject r =>
    cases catalog with
    | memory c => exact c.allows_updateObject _ hs.2 r
    | table t => exact t.allows_updateObject _ hs.2 r
  | listObjects bucket f =>
    cases catalog with
    | memory c => exact c.allows_listObjects _ hs.1 hs.2 bucket f
    | table t => exact t.allows_listObjects _ hs.2 hs.1 bucket f
  | getBucket name => exact ⟨_, rfl, by cases catalog <;> rfl, rfl⟩
  | listBuckets => exact ⟨_, rfl, rfl⟩
  | fetch r => exact rfl
  | _ => cases hc

/-- Every call keeps the invariant. -/
theorem sound_perform (c : Call) (hs : s.Sound T) : (s.perform c).2.Sound T := by
  refine ⟨sound_catalog c hs.1, ?_⟩
  obtain ⟨catalog, storage⟩ := s
  obtain ⟨-, m, rfl⟩ := hs
  cases c <;> exact ⟨_, rfl⟩

/-- Every call is answered as the contract allows. -/
theorem allows_perform (c : Call) (hs : s.Sound T) :
    s.view.Allows T c (s.perform c).1 (s.perform c).2.view := by
  obtain ⟨catalog, storage⟩ := s
  obtain ⟨hc, m, rfl⟩ := hs
  cases c with
  | put path bytes =>
    show (view ⟨catalog, .memory m⟩).Allows T (.put path bytes) (.ofExcept (m.put path bytes).1)
      (view ⟨catalog, .memory (m.put path bytes).2⟩)
    rw [view_eq, view_eq]
    exact m.allows_put _ _ path bytes
  | openBytes path =>
    show (view ⟨catalog, .memory m⟩).Allows T (.openBytes path)
      (.ofExcept ((m.get path).map Source.ofBytes)) (view ⟨catalog, .memory m⟩)
    rw [view_eq]
    exact m.allows_get _ _ path
  | hasBytes path =>
    refine ⟨?_, rfl⟩
    show Reply.ok (m.has path) = .ok ((view ⟨catalog, .memory m⟩).bytes? path).isSome
    rw [view_eq]
    rfl
  | eraseBytes path =>
    show (view ⟨catalog, .memory m⟩).Allows T (.eraseBytes path) (.ok ())
      (view ⟨catalog, .memory (m.erase path)⟩)
    rw [view_eq, view_eq]
    exact m.allows_erase _ _ path
  | eraseContainer bucket =>
    show (view ⟨catalog, .memory m⟩).Allows T (.eraseContainer bucket) (.ok ())
      (view ⟨catalog, .memory (m.eraseBucket bucket)⟩)
    rw [view_eq, view_eq]
    exact m.allows_eraseBucket _ _ bucket
  | makeContainer bucket => exact rfl
  | intake path => exact rfl
  | stage path => exact rfl
  | _ => exact allows_catalog rfl hc _

/-- A store with its storage in memory keeps the contract. -/
def contract (T : Terms) : Contract T perform where
  view := view
  Sound := Sound T
  sound c _ hs := sound_perform c hs
  allows c _ hs := allows_perform c hs

/-- A store that holds nothing. -/
theorem sound_memory (hT : ∀ n, T.Fits n) (limit : Nat) :
    Sound T ⟨.memory {}, .memory { limit }⟩ :=
  ⟨⟨fun _ h => (by cases h), hT⟩, _, rfl⟩

theorem sound_table (hT : ∀ n, T.Fits n ↔ n < Table.sizeBound) (limit : Nat) :
    Sound T ⟨.table {}, .memory { limit }⟩ :=
  ⟨⟨fun _ h => (by cases h), hT⟩, _, rfl⟩

theorem view_empty {c : Catalog} (hc : c = .memory {} ∨ c = .table {}) (limit : Nat) :
    view ⟨c, .memory { limit }⟩ = .empty := by
  rcases hc with rfl | rfl <;> exact view_memory _ _

end Store

/-! ## Faults -/

namespace Faults

/-- Whether nothing but the storage has faults, and only where it may fail. -/
def OfStorage (f : Faults) : Prop :=
  f.cut = none ∧ ∀ p ∈ f.broken, p.1 = .makeContainer ∨ p.1 = .write ∨
    (p.1 = .eraseBytes ∨ p.1 = .eraseContainer) ∧ ∃ m, p.2 = .failure m

variable {T : Terms} {f : Faults}

/-- A call is performed, or comes back as the contract allows without anything having changed. -/
theorem perform_eq_or (hf : f.OfStorage) (hT : T.MayKeep) (c : Call) (s : Store) :
    f.perform c s = s.perform c ∨ ∃ r, f.perform c s = (r, s) ∧ ∀ v : Snapshot, v.Allows T c r v := by
  cases hfault : c.operation?.bind fun o => f.broken.lookup o with
  | some x =>
    obtain ⟨o, hc, hx⟩ := Option.bind_eq_some_iff.mp hfault
    have hperform : ∃ r, f.perform c s = (r, s) ∧ ∀ m, x = .failure m → r = .failed (.unavailable m) := by
      unfold perform
      rw [hfault]
      cases x with
      | failure m => exact ⟨_, rfl, fun _ h => by cases h; rfl⟩
      | crash m => exact ⟨_, rfl, fun _ h => (by cases h)⟩
    obtain ⟨r, hr, hfailed⟩ := hperform
    refine .inr ⟨r, hr, fun v => ?_⟩
    obtain ⟨l₁, l₂, hbroken, -⟩ := List.lookup_eq_some_iff.mp hx
    rcases hf.2 (o, x) (by simp [hbroken]) with rfl | rfl | ⟨ho, m, hm⟩
    · cases c <;> cases hc
      exact rfl
    · cases c <;> cases hc
      exact rfl
    · obtain rfl := hfailed m hm
      rcases ho with rfl | rfl
      · cases c <;> cases hc
        exact .inr ⟨hT, _, rfl, .refl v _⟩
      · cases c <;> cases hc
        exact .inr ⟨hT, _, rfl, .refl v _⟩
  | none =>
    unfold perform
    rw [hfault]
    cases c with
    | intake path => exact .inr ⟨_, rfl, fun v => rfl⟩
    | openBytes path =>
      refine .inl ?_
      dsimp only
      split
      · rename_i hcut
        rw [hf.1] at hcut
        cases hcut
      · rfl
    | _ => exact .inl rfl

/-- A store with faults in its storage keeps the contract. -/
def contract (hf : f.OfStorage) (hT : T.MayKeep) : Contract T f.perform where
  view := Store.view
  Sound := Store.Sound T
  sound c s hs := by
    rcases perform_eq_or hf hT c s with h | ⟨r, h, -⟩
    · rw [h]
      exact Store.sound_perform c hs
    · rw [h]
      exact hs
  allows c s hs := by
    rcases perform_eq_or hf hT c s with h | ⟨r, h, hr⟩
    · rw [h]
      exact Store.allows_perform c hs
    · rw [h]
      exact hr _

end Faults

end Depot
