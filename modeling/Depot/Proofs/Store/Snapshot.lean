import Depot.Catalog.Memory
import Depot.Proofs.Source
import Depot.Store.Program

/-!
# What a store holds

A snapshot is what the calls of requests can tell of a store: the state of every bucket, the entry of
every object, and the bytes under every path. `Snapshot.Allows` says how a store may answer a call and
what it holds afterwards. The catalog does as it is told. A storage may fail to make a container, to
write and to erase; a write that fails leaves what was there, and an erasure that fails may have erased
some of what it was asked to.

## Main definitions

* `Snapshot.Allows` — the contract of a single call.
* `Contract` — a way of performing calls that keeps to it.
-/

namespace Depot

/-- What decides about an object. -/
structure Entry where
  status : Status
  hash : Option String
  size : Nat
  deriving DecidableEq, Repr

/-- The entry of a record. -/
def ObjectRecord.entry (r : ObjectRecord) : Entry := ⟨r.status, r.hash, r.size⟩

@[simp] theorem ObjectRecord.status_entry (r : ObjectRecord) : r.entry.status = r.status := rfl

/-- Whether a path lies in the container of a bucket. -/
def isInside (bucket path : String) : Bool := (bucket ++ "/").toList.isPrefixOf path.toList

/-- What a store holds. -/
@[ext] structure Snapshot where
  bucket? : String → Option Status
  object? : Key → Option Entry
  bytes? : String → Option Bytes

namespace Snapshot

/-- Nothing. -/
def empty : Snapshot := ⟨fun _ => none, fun _ => none, fun _ => none⟩

/-- A bucket in another state. -/
def setBucket (v : Snapshot) (name : String) (t : Status) : Snapshot :=
  { v with bucket? := fun b => if b = name then some t else v.bucket? b }

/-- An object with another entry. -/
def setObject (v : Snapshot) (k : Key) (e : Entry) : Snapshot :=
  { v with object? := fun l => if l = k then some e else v.object? l }

/-- Other bytes under a path. -/
def setBytes (v : Snapshot) (path : String) (bytes : Option Bytes) : Snapshot :=
  { v with bytes? := fun p => if p = path then bytes else v.bytes? p }

/-- An empty container. -/
def clear (v : Snapshot) (bucket : String) : Snapshot :=
  { v with bytes? := fun p => if isInside bucket p then none else v.bytes? p }

section Updates

variable (v : Snapshot) (name path : String) (k : Key) (t : Status) (e : Entry) (b : Option Bytes)

@[simp] theorem bucket?_setBucket (other : String) :
    (v.setBucket name t).bucket? other = if other = name then some t else v.bucket? other := rfl

@[simp] theorem object?_setBucket : (v.setBucket name t).object? = v.object? := rfl

@[simp] theorem bytes?_setBucket : (v.setBucket name t).bytes? = v.bytes? := rfl

@[simp] theorem bucket?_setObject : (v.setObject k e).bucket? = v.bucket? := rfl

@[simp] theorem object?_setObject (other : Key) :
    (v.setObject k e).object? other = if other = k then some e else v.object? other := rfl

@[simp] theorem bytes?_setObject : (v.setObject k e).bytes? = v.bytes? := rfl

@[simp] theorem bucket?_setBytes : (v.setBytes path b).bucket? = v.bucket? := rfl

@[simp] theorem object?_setBytes : (v.setBytes path b).object? = v.object? := rfl

@[simp] theorem bytes?_setBytes (other : String) :
    (v.setBytes path b).bytes? other = if other = path then b else v.bytes? other := rfl

@[simp] theorem bucket?_clear : (v.clear name).bucket? = v.bucket? := rfl

@[simp] theorem object?_clear : (v.clear name).object? = v.object? := rfl

@[simp] theorem bytes?_clear (other : String) :
    (v.clear name).bytes? other = if isInside name other then none else v.bytes? other := rfl

theorem setBucket_setBucket (t' : Status) :
    (v.setBucket name t).setBucket name t' = v.setBucket name t' := by
  ext1
  · funext b
    by_cases h : b = name <;> simp [h]
  · rfl
  · rfl

theorem setObject_setObject (e' : Entry) : (v.setObject k e).setObject k e' = v.setObject k e' := by
  ext1
  · rfl
  · funext l
    by_cases h : l = k <;> simp [h]
  · rfl

theorem setObject_setBytes : (v.setBytes path b).setObject k e = (v.setObject k e).setBytes path b := rfl

end Updates

/-- `w` is `v` without some of the bytes under the paths in `within`. -/
structure Loses (v w : Snapshot) (within : String → Prop) : Prop where
  bucket? : w.bucket? = v.bucket?
  object? : w.object? = v.object?
  bytes? : ∀ path, w.bytes? path = v.bytes? path ∨ within path ∧ w.bytes? path = none

theorem Loses.refl (v : Snapshot) (within : String → Prop) : v.Loses v within :=
  ⟨rfl, rfl, fun _ => .inl rfl⟩

theorem Loses.setBytes (v : Snapshot) (path : String) : v.Loses (v.setBytes path none) (· = path) where
  bucket? := rfl
  object? := rfl
  bytes? p := by
    by_cases h : p = path
    · exact .inr ⟨h, by simp [h]⟩
    · exact .inl (by simp [h])

theorem Loses.setObject {v w : Snapshot} {within : String → Prop} (h : v.Loses w within) (k : Key)
    (e : Entry) : (v.setObject k e).Loses (w.setObject k e) within :=
  ⟨h.bucket?, funext fun l => by simp [h.object?], h.bytes?⟩

theorem Loses.setBucket {v w : Snapshot} {within : String → Prop} (h : v.Loses w within)
    (name : String) (t : Status) : (v.setBucket name t).Loses (w.setBucket name t) within :=
  ⟨funext fun b => by simp [h.bucket?], h.object?, h.bytes?⟩

end Snapshot

/-- The terms of a contract. -/
structure Terms where
  /-- Which sizes the catalog can take. -/
  Fits : Nat → Prop := fun _ => True
  /-- Whether the storage may fail to erase. -/
  MayKeep : Prop := True

namespace Snapshot

/-- Whether a store that holds `v` may give an answer to a call and then hold `w`. -/
def Allows (T : Terms) (v : Snapshot) : (c : Call) → Reply c.Answer → Snapshot → Prop
  | .createBucket r, a, w =>
    ((v.bucket? r.name).all (·.isReplaceable) = true ∧ a = .ok none ∧
        w = v.setBucket r.name r.status) ∨
      ∃ t, v.bucket? r.name = some t ∧ t.isReplaceable = false ∧ a = .ok (some t) ∧ w = v
  | .getBucket name, a, w => ∃ r, a = .ok r ∧ r.map (·.status) = v.bucket? name ∧ w = v
  | .listBuckets, a, w => ∃ l, a = .ok l ∧ w = v
  | .setBucketStatus name t, a, w =>
    ((v.bucket? name).isSome = true ∧ a = .ok () ∧ w = v.setBucket name t) ∨
      (v.bucket? name = none ∧ ∃ e, a = .failed e ∧ w = v)
  | .getObject k, a, w =>
    ∃ r, a = .ok r ∧ r.map (·.entry) = v.object? k ∧ (∀ x, r = some x → x.key = k) ∧ w = v
  | .insertObject r, a, w =>
    ((v.object? r.key).all (·.status.isReplaceable) = true ∧ v.bucket? r.bucket = some .ready ∧
        T.Fits r.size ∧ a = .ok none ∧ w = v.setObject r.key r.entry) ∨
      (∃ t, (v.object? r.key).map (·.status) = some t ∧ t.isReplaceable = false ∧
        a = .ok (some t) ∧ w = v) ∨
      ∃ e, a = .failed e ∧ w = v
  | .updateObject r, a, w =>
    (T.Fits r.size ∧ (v.object? r.key).isSome = true ∧ a = .ok () ∧ w = v.setObject r.key r.entry) ∨
      (¬ (T.Fits r.size ∧ (v.object? r.key).isSome = true) ∧ ∃ e, a = .failed e ∧ w = v)
  | .listObjects bucket f, a, w =>
    ∃ l, a = .ok l ∧ w = v ∧
      (∀ r ∈ l, r.bucket = bucket ∧ (v.object? r.key).isSome = true ∧ T.Fits r.size) ∧
      (f = { statuses := f.statuses } → ∀ name e, v.object? ⟨bucket, name⟩ = some e →
        f.statuses = [] ∨ e.status ∈ f.statuses → ∃ r ∈ l, r.key = ⟨bucket, name⟩ ∧ r.entry = e)
  | .makeContainer _, _, w => w = v
  | .intake _, _, w => w = v
  | .stage _, _, w => w = v
  | .put path bytes, a, w =>
    (∃ n, a = .ok n ∧ w = v.setBytes path (some bytes)) ∨ ((∀ n, a ≠ .ok n) ∧ w = v)
  | .openBytes path, a, w =>
    w = v ∧ ∀ bytes, v.bytes? path = some bytes →
      ∃ source, a = .ok source ∧ source.Clean ∧ source.bytes = bytes
  | .hasBytes path, a, w => a = .ok (v.bytes? path).isSome ∧ w = v
  | .eraseBytes path, a, w =>
    (a = .ok () ∧ w = v.setBytes path none) ∨ T.MayKeep ∧ ∃ e, a = .failed e ∧ v.Loses w (· = path)
  | .eraseContainer bucket, a, w =>
    (a = .ok () ∧ w = v.clear bucket) ∨
      T.MayKeep ∧ ∃ e, a = .failed e ∧ v.Loses w (isInside bucket · = true)
  | .fetch _, _, w => w = v

end Snapshot

/-- A way of performing calls that keeps to the contract: what a state holds, and which states come
up. -/
structure Contract {σ : Type} (T : Terms) (perform : (c : Call) → σ → Reply c.Answer × σ) where
  view : σ → Snapshot
  Sound : σ → Prop
  sound : ∀ c s, Sound s → Sound (perform c s).2
  allows : ∀ c s, Sound s → (view s).Allows T c (perform c s).1 (view (perform c s).2)

end Depot
