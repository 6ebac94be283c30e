import Depot.Proofs.Catalog.Order
import Depot.Proofs.Store.Ledger

/-!
# A catalog beside any storage

Either catalog keeps the contract of calls beside any storage that keeps to the part of it that concerns a
storage. A storage that has failed may do what it is told from some moment on; then no call fails but for what
the catalog holds.

## Main results

* `Backend.contract` — a catalog beside a storage keeps the contract of calls.
* `Backend.run_of_serving` — what is known of a run once the storage does what it is told.
* `Backend.flaky` — a storage that fails for a while.
-/

namespace Depot

/-- Whether a call to make or to erase something comes back as if that was done. -/
def Call.Obeyed : (c : Call) → Reply c.Answer → Prop
  | .makeContainer _, a | .eraseBytes _, a | .eraseContainer _, a => a = .ok ()
  | _, _ => True

/-- What a storage does is allowed where storages may fail to erase, and where it did not fail. -/
theorem Snapshot.Allows.of_storage {T : Terms} {v w : Snapshot} {c : Call} {a : Reply c.Answer}
    (h : v.Allows {} c a w) (hc : c.isOfStorage = true) (ha : T.MayKeep ∨ c.Obeyed a) : v.Allows T c a w := by
  cases c with
  | eraseBytes path | eraseContainer bucket =>
    rcases h with hdone | ⟨-, e, rfl, hloses⟩
    · exact .inl hdone
    · exact .inr ⟨ha.resolve_right nofun, e, rfl, hloses⟩
  | makeContainer | intake | stage | put | openBytes | hasBytes => exact h
  | _ => cases hc

/-- The terms for a storage that does not fail to erase. -/
def Terms.strict (T : Terms) : Terms := { T with MayKeep := False }

namespace Catalog

/-- The sizes that a catalog of the engine takes, beside a storage that may fail. -/
def terms : Catalog → Terms
  | memory _ => {}
  | table _ => { Fits := (· < Table.sizeBound) }

variable {T : Terms} {c : Catalog}

theorem Sound.strict (h : c.Sound T) : c.Sound T.strict := by cases c <;> exact h

theorem mayKeep_terms (c : Catalog) : c.terms.MayKeep := by cases c <;> exact trivial

theorem fits_zero (c : Catalog) : c.terms.Fits 0 := by
  cases c with
  | memory => exact trivial
  | table => exact Nat.two_pow_pos 63

theorem sound_open {engine : String} (h : open' engine = .ok c) : c.Sound c.terms := by
  rcases eq_of_open h with rfl | rfl
  · exact ⟨fun _ h => (List.not_mem_nil h).elim, fun _ => trivial⟩
  · exact ⟨fun _ h => (List.not_mem_nil h).elim, fun _ => Iff.rfl⟩

theorem view_open {engine : String} (h : open' engine = .ok c) : c.view (fun _ => none) = .empty := by
  rcases eq_of_open h with rfl | rfl <;> rfl

theorem bucket?_view (c : Catalog) (bytes : String → Option Bytes) (name : String) :
    (c.view bytes).bucket? name = (c.getBucket name).map (·.status) := by cases c <;> rfl

theorem hasBucket_iff {c : Catalog} (bytes : String → Option Bytes) {name : String} :
    c.hasBucket name = true ↔ (c.view bytes).bucket? name = some .ready := by
  rw [bucket?_view, hasBucket]
  cases c.getBucket name <;> simp

theorem object?_view (c : Catalog) (bytes : String → Option Bytes) (k : Key) :
    (c.view bytes).object? k = (c.getObject k).map (·.entry) := by cases c <;> rfl

end Catalog

/-- Every call keeps one record for each key. -/
theorem Store.arranged_perform {s : Store} (c : Call) (hs : s.catalog.Arranged) :
    (s.perform c).2.catalog.Arranged := by
  cases c with
  | createBucket r => exact hs.createBucket r
  | setBucketStatus name t => exact hs.setBucketStatus name t
  | insertObject r => exact hs.insertObject r
  | updateObject r => exact hs.updateObject r
  | _ => exact hs

/-- A storage: how it performs the calls that are to it, and the bytes that it holds. -/
structure Backend (σ : Type) where
  perform : (c : Call) → σ → Reply c.Answer × σ
  bytes? : σ → String → Option Bytes
  allows : ∀ {c : Call} (s : σ), c.isOfStorage = true → ∀ v : Snapshot, v.bytes? = bytes? s →
    v.Allows {} c (perform c s).1 { v with bytes? := bytes? (perform c s).2 }

namespace Backend

variable {σ α : Type} (B : Backend σ) {T : Terms} {s : Catalog × σ}

/-- Perform the calls to a store that has its catalog beside a storage. -/
def beside (c : Call) (s : Catalog × σ) : Reply c.Answer × (Catalog × σ) :=
  if c.isOfStorage then ((B.perform c s.2).1, s.1, (B.perform c s.2).2)
  else ((Store.perform c { catalog := s.1 }).1, (Store.perform c { catalog := s.1 }).2.catalog, s.2)

theorem beside_getBucket (name : String) (s : Catalog × σ) :
    B.beside (.getBucket name) s = (.ok (s.1.getBucket name), s) := rfl

theorem beside_getObject (k : Key) (s : Catalog × σ) : B.beside (.getObject k) s = (.ok (s.1.getObject k), s) := rfl

theorem beside_listObjects (bucket : String) (f : Filter) (s : Catalog × σ) :
    B.beside (.listObjects bucket f) s = (.ok (s.1.listObjects bucket f), s) := rfl

/-- What a catalog and a storage hold together. -/
def view (s : Catalog × σ) : Snapshot := s.1.view (B.bytes? s.2)

theorem bytes?_view (s : Catalog × σ) : (B.view s).bytes? = B.bytes? s.2 := by
  obtain ⟨c, t⟩ := s
  cases c <;> rfl

variable {B} in
theorem object?_eq_some_iff {k : Key} {e : Entry} :
    (B.view s).object? k = some e ↔ ∃ r, s.1.getObject k = some r ∧ r.entry = e := by
  rw [view, Catalog.object?_view, Option.map_eq_some_iff]

theorem view_mk (c : Catalog) (t t' : σ) : B.view (c, t') = { B.view (c, t) with bytes? := B.bytes? t' } := by
  cases c <;> rfl

/-- Whether the catalog keeps its invariants. -/
def Sound (T : Terms) (s : Catalog × σ) : Prop := s.1.Sound T ∧ s.1.Arranged

section Opened

variable {engine : String} {c : Catalog} {t : σ} (hc : Catalog.open' engine = .ok c)
include hc

theorem sound_open : Sound c.terms (c, t) := ⟨Catalog.sound_open hc, Catalog.arranged_open hc⟩

/-- A new catalog beside a storage that holds nothing. -/
theorem view_open (ht : ∀ path, B.bytes? t path = none) : B.view (c, t) = .empty := by
  rw [view, show B.bytes? t = fun _ => none from funext ht, Catalog.view_open hc]

end Opened

theorem sound_beside (c : Call) (hs : Sound T s) : Sound T (B.beside c s).2 := by
  obtain ⟨catalog, t⟩ := s
  rw [beside]
  split
  · exact hs
  · exact ⟨Store.sound_catalog (s := { catalog }) c hs.1, Store.arranged_perform (s := { catalog }) c hs.2⟩

/-- Every call is answered as the contract allows. -/
theorem allows_beside (c : Call) (hs : Sound T s) (hT : T.MayKeep ∨ c.Obeyed (B.beside c s).1) :
    (B.view s).Allows T c (B.beside c s).1 (B.view (B.beside c s).2) := by
  obtain ⟨catalog, t⟩ := s
  rw [beside] at hT ⊢
  split at hT <;> rename_i hc
  · rw [if_pos hc]
    have hallows := (B.allows t hc _ (B.bytes?_view (catalog, t))).of_storage hc hT
    rwa [← B.view_mk] at hallows
  · rw [if_neg hc]
    exact Store.allows_catalog (s := { catalog }) (by simpa using hc) hs.1 _

/-- A catalog beside a storage keeps the contract. -/
def contract (hT : T.MayKeep) : Contract T B.beside where
  view := B.view
  Sound := Sound T
  sound c _ hs := B.sound_beside c hs
  allows c _ hs := B.allows_beside c hs (.inl hT)

/-! ## When the storage does what it is told -/

/-- Whether a storage does from a state on what it is told to make or to erase, whatever calls come. -/
def Obeys (t : σ) : Prop :=
  ∀ (calls : List Call) (c : Call), c.Obeyed (B.perform c (calls.foldl (fun t c => (B.perform c t).2) t)).1

variable {B}

theorem Obeys.next {t : σ} (ht : B.Obeys t) (c : Call) : B.Obeys (B.perform c t).2 := fun calls => ht (c :: calls)

theorem Obeys.beside (hs : B.Obeys s.2) (c : Call) : B.Obeys (B.beside c s).2.2 := by
  rw [Backend.beside]
  split
  · exact hs.next c
  · exact hs

theorem Obeys.obeyed (hs : B.Obeys s.2) (c : Call) : c.Obeyed (B.beside c s).1 := by
  cases c with
  | makeContainer name => exact hs [] (.makeContainer name)
  | eraseBytes path => exact hs [] (.eraseBytes path)
  | eraseContainer name => exact hs [] (.eraseContainer name)
  | _ => trivial

end Backend

/-- Whether a call fails only for what the catalog holds, and lists nothing else. -/
def Snapshot.Serves (T : Terms) (v : Snapshot) : (c : Call) → Reply c.Answer → Prop
  | .makeContainer _, a => a = .ok ()
  | .insertObject r, a => Ledger.Admits T v (.insertObject r) a
  | .listObjects _ f, .ok l => ∀ r ∈ l, v.object? r.key = some r.entry ∧ f.accepts r = true
  | _, _ => True

/-- A call to a store that fails only for what the catalog holds. -/
def Terms.serving (T : Terms) : Meaning Snapshot where
  pre c K v := ∀ a w, v.Allows T c a w → v.Serves T c a → K a w
  mono h hpre a w hallows hserves := h a w (hpre a w hallows hserves)

theorem Program.Ensures.serving {α : Type} {T : Terms} {v : Snapshot} {t : Program α} {Q : α → Snapshot → Prop}
    (h : t.Ensures T Q v) : t.wp T.serving Q v := by
  induction t generalizing v with
  | done a => exact h
  | call c next ih => exact fun a w hallows _ => ih a (h a w hallows)

theorem Action.Ensures.serving {ρ α : Type} {T : Terms} {v : Snapshot} {a : Action ρ α} {s : ρ}
    {Q : Except Trouble α → ρ → Snapshot → Prop} (h : a.Ensures T Q s v) : a.wp T.serving Q s v :=
  Program.Ensures.serving h

namespace Backend

variable {σ α : Type} {B : Backend σ} {T : Terms} {s : Catalog × σ}

theorem Obeys.serves (hobeys : B.Obeys s.2) (hs : Sound T s) (c : Call) :
    (B.view s).Serves T c (B.beside c s).1 := by
  obtain ⟨catalog, t⟩ := s
  cases c with
  | makeContainer name => exact hobeys.obeyed (.makeContainer name)
  | insertObject r => exact Store.admits_perform (s := { catalog }) (.insertObject r) hs.1 (B.bytes? t)
  | listObjects bucket f =>
    intro r hr
    obtain ⟨hobject, -, haccepts⟩ := hs.2.of_mem_listObjects hr
    refine ⟨?_, haccepts⟩
    rw [view, Catalog.object?_view]
    exact congrArg (Option.map ObjectRecord.entry) hobject
  | _ => trivial

/-- What holds at the end of a run once the storage does what it is told. -/
theorem run_of_serving (hs : Sound T s) (hobeys : B.Obeys s.2) {t : Program α} {Q : α → Snapshot → Prop}
    (h : t.wp T.serving Q (B.view s)) :
    ∃ a s', t.run B.beside s = (a, s') ∧ Sound T s' ∧ B.Obeys s'.2 ∧ Q a (B.view s') := by
  induction t generalizing s with
  | done a => exact ⟨a, s, rfl, hs, hobeys, h⟩
  | call c next ih =>
    have hallows := B.allows_beside c hs (.inr (hobeys.obeyed c))
    exact ih _ (B.sound_beside c hs) (hobeys.beside c) (h _ _ hallows (hobeys.serves hs c))

end Backend

/-! ## A storage in memory -/

namespace MemoryStorage

/-- Perform the calls to a storage in memory. -/
def perform (c : Call) (s : MemoryStorage) : Reply c.Answer × MemoryStorage :=
  match c with
  | .makeContainer _ => (.ok (), s)
  | .intake _ => (.ok none, s)
  | .stage _ => (.ok (), s)
  | .put path bytes => let (a, s) := s.put path bytes; (.ofExcept a, s)
  | .openBytes path => (.ofExcept ((s.get path).map Source.ofBytes), s)
  | .hasBytes path => (.ok (s.has path), s)
  | .eraseBytes path => (.ok (), s.erase path)
  | .eraseContainer bucket => (.ok (), s.eraseBucket bucket)
  | _ => (.failed (.unavailable "not a call to the storage"), s)

variable {v : Snapshot} (s : MemoryStorage)

theorem allows_perform {T : Terms} {c : Call} (hc : c.isOfStorage = true)
    (hv : v.bytes? = SortedMap.get? s.objects) :
    v.Allows T c (s.perform c).1 { v with bytes? := SortedMap.get? (s.perform c).2.objects } := by
  obtain ⟨b, o, bytes⟩ := v
  obtain rfl : bytes = SortedMap.get? s.objects := hv
  cases c with
  | put path bytes => exact s.allows_put _ _ path bytes
  | openBytes path => exact s.allows_get _ _ path
  | eraseBytes path => exact s.allows_erase _ _ path
  | eraseContainer bucket => exact s.allows_eraseBucket _ _ bucket
  | hasBytes path => exact ⟨rfl, rfl⟩
  | makeContainer | intake | stage => exact rfl
  | _ => cases hc

end MemoryStorage

namespace Backend

/-- A storage in memory whose first erasures fail. -/
def flaky : Backend (Nat × MemoryStorage) where
  perform c s :=
    match c, s with
    | .eraseBytes _, (n + 1, m) | .eraseContainer _, (n + 1, m) => (.failed (.unavailable "out of order"), n, m)
    | c, (n, m) => ((m.perform c).1, n, (m.perform c).2)
  bytes? s := SortedMap.get? s.2.objects
  allows := by
    rintro c ⟨n, m⟩ hc v hv
    have hrefl : v = { v with bytes? := SortedMap.get? m.objects } := Snapshot.ext rfl rfl hv
    cases c with
    | eraseBytes path | eraseContainer bucket =>
      cases n with
      | zero => exact m.allows_perform hc hv
      | succ n => exact .inr ⟨trivial, _, rfl, hrefl ▸ .refl v _⟩
    | _ => exact m.allows_perform hc hv

/-- Once as many erasures failed as do, the storage does what it is told. -/
theorem obeys_flaky (m : MemoryStorage) : flaky.Obeys (0, m) := by
  intro calls c
  obtain ⟨m', hm⟩ : ∃ m', calls.foldl (fun t c => (flaky.perform c t).2) (0, m) = (0, m') := by
    induction calls generalizing m with
    | nil => exact ⟨m, rfl⟩
    | cons c calls ih => cases c <;> exact ih _
  rw [hm]
  cases c <;> trivial

end Backend

end Depot
