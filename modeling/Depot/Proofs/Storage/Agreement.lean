import Depot.Proofs.Since
import Depot.Proofs.SortedMap
import Depot.Proofs.Storage.Directory

/-!
# The storages agree

A storage in memory keeps bytes under texts; a storage in a directory keeps them in files, and makes
directories above these that stay when the files go. As long as no key leads to another one that is stored,
both answer every operation the same way — until a directory that was made for a key stands where another
one is to be erased or written: there the storage in a directory refuses, and the storage in memory does not.

## Main results

* `Storage.Mirrors` — what stands in a directory that went through the same operations as a storage in memory.
* `Storage.Mirrors.perform_agrees`, `Storage.Mirrors.perform_ne` — how both answer one operation.
* `Storage.performAll_eq_iff` — when they answer all operations of a sequence the same way.
-/

namespace Depot

namespace Storage

/-- An operation of a storage. -/
inductive Operation where
  | createBucket (bucket : String)
  | write (key : Key) (source : Source)
  | get (key : Key)
  | has (key : Key)
  | erase (key : Key)
  | eraseBucket (bucket : String)
  deriving DecidableEq, Repr

/-- The answer to an operation. -/
inductive Response where
  | done (result : Except StoreError Unit)
  | written (result : Except StoreError Nat)
  | opened (result : Except StoreError Bytes)
  | present (result : Except StoreError Bool)

def perform (s : Storage) : Operation → Response × Storage
  | .createBucket bucket => (s.createBucket bucket).map .done id
  | .write k source => (s.write k.path source).map .written id
  | .get k => (.opened (s.get k.path), s)
  | .has k => (.present (s.has k.path), s)
  | .erase k => (s.erase k.path).map .done id
  | .eraseBucket bucket => (s.eraseBucket bucket).map .done id

/-- Perform operations one after the other. -/
def performAll (s : Storage) : List Operation → List Response × Storage
  | [] => ([], s)
  | op :: ops =>
    let (response, s) := s.perform op
    let (responses, s) := s.performAll ops
    (response :: responses, s)

/-- The segments of the paths under which a storage keeps bytes. -/
def files : Storage → List (List String)
  | memory m => m.objects.map fun e => Text.split '/' e.1
  | directory d => (d.nodes.filter fun e => e.2 ≠ .directory).map (·.1)

namespace Operation

/-- Whether an operation is about a valid bucket or a valid key. -/
def Valid : Operation → Prop
  | createBucket bucket | eraseBucket bucket => isBucketName bucket = true
  | write k _ | get k | has k | erase k => k.Valid

instance : DecidablePred Valid
  | createBucket bucket | eraseBucket bucket => inferInstanceAs (Decidable (isBucketName bucket = true))
  | write k _ | get k | has k | erase k => inferInstanceAs (Decidable k.Valid)

/-- The names of the files and directories that an operation makes. -/
def names : Operation → List String
  | createBucket bucket => [bucket]
  | write k _ => k.segments
  | _ => []

/-- Whether no name is longer than a limit, if there is one. -/
def Fits (longest : Option Nat) (op : Operation) : Prop :=
  ∀ name ∈ op.names, ({ longest } : Directory).isLong name = false

instance (longest : Option Nat) : DecidablePred (Fits longest) :=
  fun op => inferInstanceAs (Decidable (∀ name ∈ op.names, _))

/-- Whether an operation does not write a key that leads to another stored one, or the other way around. -/
def Apart (s : Storage) : Operation → Prop
  | write k _ => ∀ p ∈ s.files, p ≠ k.segments → ¬ p <+: k.segments ∧ ¬ k.segments <+: p
  | _ => True

instance (s : Storage) : DecidablePred (Apart s)
  | write k _ =>
    inferInstanceAs (Decidable (∀ p ∈ s.files, p ≠ k.segments → ¬ p <+: k.segments ∧ ¬ k.segments <+: p))
  | createBucket _ | get _ | has _ | erase _ | eraseBucket _ => isTrue trivial

/-- The directory that an operation makes, together with those that lead to it. -/
def parent : Operation → List String
  | createBucket bucket => [bucket]
  | write k _ => k.segments.dropLast
  | _ => []

/-- Whether an operation removes what is at a path, and all there is below it. -/
def Removes (p : List String) : Operation → Prop
  | eraseBucket bucket => [bucket] <+: p
  | _ => False

/-- Whether some operation made a directory at a path, and none removed it since. -/
def Made (past : List Operation) (p : List String) : Prop :=
  Since (fun op => Directory.Leads p op.parent) (Removes p) past

/-- Whether a directory stands where an operation is to put bytes, or to erase some. A write whose source
fails does not get that far. -/
def Obstructed (past : List Operation) : Operation → Prop
  | write k source => Made past k.segments ∧ source.readToEnd.2 = none
  | erase k => Made past k.segments
  | _ => False

end Operation

/-- Whether every write of some operations is apart from what is stored at that moment. -/
def Apart (s : Storage) : List Operation → Prop
  | [] => True
  | op :: ops => op.Apart s ∧ (s.perform op).2.Apart ops

instance decidableApart (s : Storage) : (ops : List Operation) → Decidable (s.Apart ops)
  | [] => isTrue trivial
  | op :: ops =>
    have := decidableApart (s.perform op).2 ops
    inferInstanceAs (Decidable (op.Apart s ∧ (s.perform op).2.Apart ops))

section Made

variable {past : List Operation} {op : Operation} {p : List String} {bucket : String}

open Operation (Made)

theorem made_append : Made (past ++ [op]) p ↔ Directory.Leads p op.parent ∨ Made past p ∧ ¬ op.Removes p :=
  since_append

theorem removes_cons (s : String) (p : List String) : op.Removes (s :: p) ↔ op.Removes [s] := by
  cases op <;> simp [Operation.Removes, List.cons_prefix_cons]

/-- What was made below the root was made together with the first of the directories that lead to it. -/
theorem made_first {s : String} (h : Made past (s :: p)) : Made past [s] := by
  refine Since.mono (fun op hop => ?_) (fun op hop => (removes_cons s p).mpr hop) h
  exact ⟨List.cons_ne_nil s [], (List.prefix_append [s] p).trans hop.2⟩

end Made

/-- What stands in a directory that went through the same operations as a storage in memory: the directories
that were made, and the bytes of valid keys in files. -/
structure Mirrors (past : List Operation) (d : Directory) (m : MemoryStorage) : Prop where
  unlimited : m.limit = 0
  staging : d.node? Directory.staging = some .directory
  made : ∀ p, p ≠ [] → p ≠ Directory.staging → (d.node? p = some .directory ↔ Operation.Made past p)
  file : ∀ k : Key, k.Valid → ∀ bytes,
    d.node? k.segments = some (.file bytes) ↔ SortedMap.get? m.objects k.path = some bytes
  keyed : ∀ p bytes, d.node? p = some (.file bytes) → ∃ k : Key, k.Valid ∧ p = k.segments
  housed : ∀ k : Key, k.Valid → (SortedMap.get? m.objects k.path).isSome = true →
    Operation.Made past [k.bucket]

namespace Mirrors

open Operation (Made)

variable {past : List Operation} {o : Operation} {d d' : Directory} {m : MemoryStorage} {k : Key}

theorem empty (longest : Option Nat) : Mirrors [] { longest } {} where
  unlimited := rfl
  staging := by rw [Directory.node?_empty longest (by decide), if_pos rfl]
  made p hne hother := by
    rw [Directory.node?_empty longest hne, if_neg hother]
    simp [Made, not_since_nil]
  file k hk bytes := by
    rw [Directory.node?_empty longest hk.segments_ne_nil, if_neg (Directory.segments_ne_staging hk)]
    simp [SortedMap.get?]
  keyed p bytes h := by
    by_cases hne : p = []
    · subst hne
      cases h
    · rw [Directory.node?_empty longest hne] at h
      split at h <;> cases h
  housed k hk h := by simp [SortedMap.get?] at h

/-- Making directories where no file is in the way keeps both storages alike. -/
theorem grow (h : Mirrors past d m) (hop : ∀ p, ¬ o.Removes p) (hclear : d.Clear o.parent)
    (hgrown : d.Grown o.parent d') : Mirrors (past ++ [o]) d' m where
  unlimited := h.unlimited
  staging := by rw [hgrown.node?, h.staging, ite_self]
  made p hne hother := by
    rw [made_append, hgrown.node?, ← h.made p hne hother]
    by_cases hleads : Directory.Leads p o.parent
    · simp [hleads]
    · simp [hleads, hop p]
  file k hk bytes := by
    rw [hgrown.node?, ← h.file k hk bytes]
    split
    · next hleads => simpa using hclear k.segments hleads bytes
    · rfl
  keyed p bytes hfile := by
    rw [hgrown.node?] at hfile
    split at hfile
    · cases hfile
    · exact h.keyed p bytes hfile
  housed k hk hsome := made_append.mpr (.inr ⟨h.housed k hk hsome, hop _⟩)

/-- An operation that makes and removes nothing. -/
theorem idle (h : Mirrors past d m) (hop : ∀ p, ¬ o.Removes p) (hparent : o.parent = []) :
    Mirrors (past ++ [o]) d m := by
  have hnowhere (p : List String) : ¬ Directory.Leads p o.parent := by
    rw [hparent]
    exact fun hleads => hleads.1 (List.prefix_nil.mp hleads.2)
  refine h.grow hop (fun p hp => absurd hp (hnowhere p)) ⟨rfl, fun p => ?_⟩
  rw [if_neg (hnowhere p)]

/-- Bytes take their place in both storages. -/
theorem put (h : Mirrors past d m) (hk : k.Valid) (hfree : ¬ Made past k.segments)
    (hhoused : Made past [k.bucket]) (bytes : Bytes) (counter : UInt64) :
    Mirrors past { d with nodes := SortedMap.insert d.nodes k.segments (.file bytes) }
      { m with objects := SortedMap.insert m.objects k.path bytes, counter := counter } where
  unlimited := h.unlimited
  staging := by
    rw [Directory.node?_insert d hk.segments_ne_nil, if_neg (Directory.segments_ne_staging hk).symm, h.staging]
  made p hne hother := by
    rw [Directory.node?_insert d hk.segments_ne_nil, ← h.made p hne hother]
    split
    · next heq =>
      subst heq
      simpa [h.made _ hk.segments_ne_nil (Directory.segments_ne_staging hk)] using hfree
    · rfl
  file l hl other := by
    rw [Directory.node?_insert d hk.segments_ne_nil, SortedMap.get?_insert]
    by_cases heq : l = k
    · subst heq
      simp
    · rw [if_neg fun hsegments => heq (hl.segments_inj hk hsegments),
        if_neg fun hpath => heq (Key.path_inj hl hk hpath)]
      exact h.file l hl other
  keyed p other hfile := by
    rw [Directory.node?_insert d hk.segments_ne_nil] at hfile
    split at hfile
    · next heq => exact ⟨k, hk, heq⟩
    · exact h.keyed p other hfile
  housed l hl hsome := by
    rw [SortedMap.get?_insert] at hsome
    split at hsome
    · next heq => rwa [Key.path_inj hl hk heq]
    · exact h.housed l hl hsome

/-- Bytes go from both storages, if there were any. -/
theorem erase (h : Mirrors past d m) (hk : k.Valid) (hfree : ¬ Made past k.segments)
    (hnode : ∀ p, d'.node? p = if p = k.segments then none else d.node? p) :
    Mirrors past d' (m.erase k.path) where
  unlimited := h.unlimited
  staging := by rw [hnode, if_neg (Directory.segments_ne_staging hk).symm, h.staging]
  made p hne hother := by
    rw [hnode, ← h.made p hne hother]
    split
    · next heq =>
      subst heq
      simpa [h.made _ hk.segments_ne_nil (Directory.segments_ne_staging hk)] using hfree
    · rfl
  file l hl bytes := by
    rw [hnode, MemoryStorage.erase, SortedMap.get?_erase]
    by_cases heq : l = k
    · subst heq
      simp
    · rw [if_neg fun hsegments => heq (hl.segments_inj hk hsegments),
        if_neg fun hpath => heq (Key.path_inj hl hk hpath)]
      exact h.file l hl bytes
  keyed p bytes hfile := by
    rw [hnode] at hfile
    split at hfile
    · cases hfile
    · exact h.keyed p bytes hfile
  housed l hl hsome := by
    rw [MemoryStorage.erase, SortedMap.get?_erase] at hsome
    split at hsome
    · cases hsome
    · exact h.housed l hl hsome

/-- The container of a bucket goes from both storages. -/
theorem eraseBucket {bucket : String} (h : Mirrors past d m) (hb : isBucketName bucket = true)
    (hnode : ∀ p, d'.node? p = if [bucket] <+: p then none else d.node? p) :
    Mirrors (past ++ [.eraseBucket bucket]) d' (m.eraseBucket bucket) := by
  have hmade (p : List String) (hp : p ≠ []) : Made (past ++ [.eraseBucket bucket]) p ↔
      Made past p ∧ ¬ [bucket] <+: p := by
    rw [made_append]
    simp [Operation.parent, Operation.Removes, Directory.Leads, hp]
  have hget (l : Key) (hl : l.Valid) : SortedMap.get? (m.eraseBucket bucket).objects l.path =
      if l.bucket = bucket then none else SortedMap.get? m.objects l.path := by
    have hfilter := SortedMap.get?_filter m.objects (fun p => !isInside bucket p) l.path
    have hinside := Key.isInside_path hb hl
    simp only [MemoryStorage.eraseBucket]
    rw [show (fun e : String × Bytes => !(bucket ++ "/").toList.isPrefixOf e.1.toList) =
      fun e => !isInside bucket e.1 from rfl, hfilter]
    grind
  have hinside (l : Key) (hl : l.Valid) : [bucket] <+: l.segments ↔ l.bucket = bucket := by
    rw [Key.segments_eq hl, List.cons_prefix_cons]
    simp [eq_comm]
  refine ⟨h.unlimited, ?_, fun p hne hother => ?_, fun l hl bytes => ?_, fun p bytes hfile => ?_,
    fun l hl hsome => ?_⟩
  · rw [hnode, if_neg (Directory.bucket_not_prefix_staging hb), h.staging]
  · rw [hnode, hmade p hne, ← h.made p hne hother]
    split <;> simp_all
  · rw [hnode, hget l hl]
    simp only [hinside l hl]
    split
    · simp
    · exact h.file l hl bytes
  · rw [hnode] at hfile
    split at hfile
    · cases hfile
    · exact h.keyed p bytes hfile
  · rw [hget l hl] at hsome
    split at hsome
    · cases hsome
    · next hother =>
      refine (hmade _ (List.cons_ne_nil _ _)).mpr ⟨h.housed l hl hsome, fun hprefix => hother ?_⟩
      simpa [List.cons_prefix_cons, eq_comm] using hprefix

/-- A directory stands where an operation is obstructed. -/
theorem node?_of_made (h : Mirrors past d m) (hk : k.Valid) :
    Made past k.segments ↔ d.node? k.segments = some .directory :=
  (h.made _ hk.segments_ne_nil (Directory.segments_ne_staging hk)).symm

/-- A file is in the way of an operation only if its key leads to the one that is written. -/
theorem clear (h : Mirrors past d m) (hvalid : o.Valid) (hapart : o.Apart (memory m)) :
    d.Clear o.parent := by
  intro p hp bytes hfile
  obtain ⟨l, hl, rfl⟩ := h.keyed p bytes hfile
  cases o with
  | createBucket bucket =>
    have hlength := hp.2.length_le
    have hlong := List.length_pos_iff.mpr hl.dropLast_ne_nil
    rw [List.length_dropLast] at hlong
    simp only [Operation.parent, List.length_singleton] at hlength
    omega
  | write k source =>
    obtain ⟨hleads, hother⟩ := Directory.leads_dropLast.mp hp
    have hstored : l.segments ∈ (memory m).files :=
      List.mem_map_of_mem (SortedMap.mem_of_get? ((h.file l hl bytes).mp hfile))
    exact (hapart l.segments hstored hother).1 hleads.2
  | get k | has k | erase k | eraseBucket bucket => exact hp.1 (List.prefix_nil.mp hp.2)

end Mirrors

/-! ## One operation -/

/-- Whether both storages answer an operation the same way and are alike afterwards. -/
def Agree (past : List Operation) (o : Operation) (d : Directory) (m : MemoryStorage) : Prop :=
  ∃ r d' m', (directory d).perform o = (r, directory d') ∧ (memory m).perform o = (r, memory m') ∧
    d'.longest = d.longest ∧ Mirrors (past ++ [o]) d' m'

theorem write_memory {m : MemoryStorage} (h : m.limit = 0) (path : String) (source : Source) :
    (memory m).write path source =
      match source.readToEnd with
      | (_, some e) => (.error (.io e), memory m)
      | (bytes, none) => (.ok bytes.length, memory { m with
          objects := SortedMap.insert m.objects path bytes
          counter := m.projected path bytes }) := by
  rw [write, stage]
  cases source.readToEnd with
  | mk bytes error => cases error <;> simp [put, MemoryStorage.put, h]

namespace Mirrors

open Operation (Made)

variable {past : List Operation} {o : Operation} {d : Directory} {m : MemoryStorage} {k : Key} {bucket : String}

theorem createBucket_agrees (h : Mirrors past d m) (hb : isBucketName bucket = true)
    (hfits : (Operation.createBucket bucket).Fits d.longest) : Agree past (.createBucket bucket) d m := by
  have hclear := h.clear (o := .createBucket bucket) hb trivial
  have hroom : d.Room [bucket] := ⟨Directory.hasNul_bucket hb, hfits, hclear⟩
  obtain ⟨d', hmade, hgrown⟩ := Directory.createBucket_of_room hb hroom
  refine ⟨_, d', m, ?_, rfl, hgrown.longest, h.grow (fun _ => id) hclear hgrown⟩
  simp only [perform, Storage.createBucket, hmade]
  rfl

theorem write_agrees (h : Mirrors past d m) (hk : k.Valid) {source : Source}
    (hfits : (Operation.write k source).Fits d.longest)
    (hapart : (Operation.write k source).Apart (memory m))
    (hfree : ¬ (Operation.write k source).Obstructed past) : Agree past (.write k source) d m := by
  have hclear := h.clear (o := .write k source) hk hapart
  have hshort : ∀ s ∈ k.segments, d.isLong s = false := hfits
  obtain ⟨d', hgrown, hwrite⟩ := write_directory hk hshort hclear h.staging source
  have hnext := h.grow (o := .write k source) (fun _ => id) hclear hgrown
  simp only [Agree, perform, hwrite, write_memory h.unlimited]
  cases hread : source.readToEnd with
  | mk bytes error =>
    cases error with
    | some e => exact ⟨_, _, _, rfl, rfl, hgrown.longest, hnext⟩
    | none =>
      have hmade : ¬ Made past k.segments := fun hmade => hfree ⟨hmade, by rw [hread]⟩
      have hnode := mt (h.node?_of_made hk).mpr hmade
      have hplace : ¬ Made (past ++ [.write k source]) k.segments := by
        rw [made_append]
        rintro (hleads | ⟨hmade', -⟩)
        · exact (Directory.leads_dropLast.mp hleads).2 rfl
        · exact hmade hmade'
      have hhoused : Made (past ++ [.write k source]) [k.bucket] :=
        made_append.mpr (.inl ⟨List.cons_ne_nil _ _, hk.bucket_prefix_dropLast⟩)
      refine ⟨_, _, _, ?_, rfl, ?_, hnext.put hk hplace hhoused bytes _⟩
      · simp [hnode]
      · exact hgrown.longest

theorem get_agrees (h : Mirrors past d m) (hk : k.Valid) : Agree past (.get k) d m := by
  refine ⟨_, d, m, rfl, ?_, rfl, h.idle (fun _ => id) rfl⟩
  have hfile := h.file k hk
  simp only [perform, Storage.get, Directory.get_path d hk, MemoryStorage.get]
  cases hget : SortedMap.get? m.objects k.path with
  | some bytes => rw [(hfile bytes).mpr hget]
  | none =>
    have hnone (bytes : Bytes) : d.node? k.segments ≠ some (.file bytes) := by
      rw [Ne, hfile, hget]
      simp
    split <;> simp_all

theorem has_agrees (h : Mirrors past d m) (hk : k.Valid) : Agree past (.has k) d m := by
  refine ⟨_, d, m, rfl, ?_, rfl, h.idle (fun _ => id) rfl⟩
  have hfile := h.file k hk
  simp only [perform, Storage.has, Directory.has_path d hk, MemoryStorage.has]
  cases hget : SortedMap.get? m.objects k.path with
  | some bytes => rw [(hfile bytes).mpr hget]; rfl
  | none =>
    have hnone (bytes : Bytes) : d.node? k.segments ≠ some (.file bytes) := by
      rw [Ne, hfile, hget]
      simp
    split <;> simp_all

theorem erase_agrees (h : Mirrors past d m) (hk : k.Valid) (hfree : ¬ Made past k.segments) :
    Agree past (.erase k) d m := by
  have hnode := mt (h.node?_of_made hk).mpr hfree
  have hidle := h.idle (o := .erase k) (fun _ => id) rfl
  have hfree' : ¬ Made (past ++ [.erase k]) k.segments := by
    rw [hidle.node?_of_made hk, ← h.node?_of_made hk]
    exact hfree
  simp only [Agree, perform, Storage.erase, Directory.erase_path d hk]
  cases hn : d.node? k.segments with
  | none =>
    refine ⟨_, d, _, rfl, rfl, rfl, hidle.erase hk hfree' fun p => ?_⟩
    split
    · next heq => rw [heq, hn]
    · rfl
  | some n =>
    cases n with
    | directory => exact absurd hn hnode
    | file bytes => exact ⟨_, _, _, rfl, rfl, rfl, hidle.erase hk hfree' (Directory.node?_erase d hk.segments_ne_nil)⟩

/-- Nothing stands below the directory of a bucket that was not made. -/
theorem node?_eq_none (h : Mirrors past d m) (hb : isBucketName bucket = true)
    (hnode : d.node? [bucket] ≠ some .directory) {p : List String} (hp : [bucket] <+: p) : d.node? p = none := by
  have hne : p ≠ Directory.staging := fun heq => Directory.bucket_not_prefix_staging hb (heq ▸ hp)
  obtain ⟨rest, rfl⟩ := hp
  have hmade : ¬ Made past [bucket] := by
    rw [← h.made _ (List.cons_ne_nil _ _) fun heq => Directory.bucket_not_prefix_staging hb (heq ▸ List.prefix_refl _)]
    exact hnode
  cases hn : d.node? ([bucket] ++ rest) with
  | none => rfl
  | some n =>
    cases n with
    | directory => exact absurd (made_first ((h.made _ (List.cons_ne_nil _ _) hne).mp hn)) hmade
    | file bytes =>
      obtain ⟨l, hl, hsegments⟩ := h.keyed _ bytes hn
      have hstored := (h.file l hl bytes).mp (hsegments ▸ hn)
      have hbucket : l.bucket = bucket := by
        rw [Key.segments_eq hl] at hsegments
        exact (List.cons_eq_cons.mp hsegments).1.symm
      exact absurd (hbucket ▸ h.housed l hl (by rw [hstored]; rfl)) hmade

theorem eraseBucket_agrees (h : Mirrors past d m) (hb : isBucketName bucket = true) :
    Agree past (.eraseBucket bucket) d m := by
  simp only [Agree, perform, Storage.eraseBucket, Directory.eraseBucket_bucket d hb]
  by_cases hnode : d.node? [bucket] = some .directory
  · rw [if_pos hnode]
    refine ⟨_, _, _, rfl, rfl, rfl, h.eraseBucket hb ?_⟩
    exact Directory.node?_eraseBelow d (List.cons_ne_nil bucket [])
  · rw [if_neg hnode]
    refine ⟨_, _, _, rfl, rfl, rfl, h.eraseBucket hb fun p => ?_⟩
    split
    · next hprefix => exact h.node?_eq_none hb hnode hprefix
    · rfl

/-- An operation that is not obstructed is answered the same way by both storages. -/
theorem perform_agrees (h : Mirrors past d m) (hvalid : o.Valid) (hfits : o.Fits d.longest)
    (hapart : o.Apart (memory m)) (hfree : ¬ o.Obstructed past) : Agree past o d m := by
  cases o with
  | createBucket bucket => exact h.createBucket_agrees hvalid hfits
  | write k source => exact h.write_agrees hvalid hfits hapart hfree
  | get k => exact h.get_agrees hvalid
  | has k => exact h.has_agrees hvalid
  | erase k => exact h.erase_agrees hvalid hfree
  | eraseBucket bucket => exact h.eraseBucket_agrees hvalid

/-- An operation that is obstructed succeeds in memory only. -/
theorem perform_ne (h : Mirrors past d m) (hvalid : o.Valid) (hfits : o.Fits d.longest)
    (hapart : o.Apart (memory m)) (hobstructed : o.Obstructed past) :
    ((directory d).perform o).1 ≠ ((memory m).perform o).1 := by
  cases o with
  | createBucket bucket | get k | has k | eraseBucket bucket => exact hobstructed.elim
  | write k source =>
    obtain ⟨hmade, hwhole⟩ := hobstructed
    have hclear := h.clear (o := .write k source) hvalid hapart
    have hshort : ∀ s ∈ k.segments, d.isLong s = false := hfits
    obtain ⟨d', -, hwrite⟩ := write_directory hvalid hshort hclear h.staging source
    have hnode := (h.node?_of_made hvalid).mp hmade
    simp only [perform, hwrite, write_memory h.unlimited]
    cases hread : source.readToEnd with
    | mk bytes error =>
      rw [hread] at hwhole
      cases error with
      | some e => cases hwhole
      | none => simp [hnode]
  | erase k =>
    have hnode := (h.node?_of_made hvalid).mp hobstructed
    simp [perform, Storage.erase, Directory.erase_path d hvalid, hnode]

/-- Alike storages answer all operations of a sequence the same way if none of them is obstructed. -/
theorem performAll_eq_iff (h : Mirrors past d m) {ops : List Operation}
    (hops : ∀ op ∈ ops, op.Valid ∧ op.Fits d.longest) (hapart : (memory m).Apart ops) :
    ((directory d).performAll ops).1 = ((memory m).performAll ops).1 ↔
      Always (fun past op => ¬ op.Obstructed past) past ops := by
  induction ops generalizing past d m with
  | nil => simp [performAll, Always]
  | cons op ops ih =>
    obtain ⟨⟨hvalid, hfits⟩, hrest⟩ := List.forall_mem_cons.mp hops
    by_cases hobstructed : op.Obstructed past
    · have hne := h.perform_ne hvalid hfits hapart.1 hobstructed
      simp [performAll, Always, hobstructed, hne]
    · obtain ⟨r, d', m', hdirectory, hmemory, hlongest, hnext⟩ :=
        h.perform_agrees hvalid hfits hapart.1 hobstructed
      have hapart' := hapart.2
      rw [hmemory] at hapart'
      have htail := ih hnext (hlongest ▸ hrest) hapart'
      simp [performAll, Always, hdirectory, hmemory, hobstructed, htail]

end Mirrors

/-! ## All operations -/

/-- A storage in a directory and one in memory that are new, and asked for valid keys of which none leads to
another that is stored when it is written, answer the same until an operation finds a directory that an
earlier one made where it is to put or to erase bytes. -/
theorem performAll_directory_eq_iff (longest : Option Nat) {ops : List Operation}
    (hops : ∀ op ∈ ops, op.Valid ∧ op.Fits longest) (hapart : (memory {}).Apart ops) :
    ((directory { longest }).performAll ops).1 = ((memory {}).performAll ops).1 ↔
      Always (fun past op => ¬ op.Obstructed past) [] ops :=
  (Mirrors.empty longest).performAll_eq_iff hops hapart

/-- Two objects in one directory, one of which is replaced by an object in a directory of its name. -/
theorem performAll_directory_eq_iff_two_objects :
    let left : Key := ⟨"maps", "2024/north"⟩
    let right : Key := ⟨"maps", "2024/south"⟩
    let below : Key := ⟨"maps", "2024/north/east"⟩
    let ops : List Operation :=
      [.createBucket "maps", .write left (.ofBytes [1]), .write right (.ofBytes [2, 3]), .erase left,
        .write below (.ofBytes [4]), .get below, .erase right, .eraseBucket "maps", .has below]
    (∀ op ∈ ops, op.Valid ∧ op.Fits none) ∧ (memory {}).Apart ops ∧
      (((directory { longest := none }).performAll ops).1 = ((memory {}).performAll ops).1 ↔
        Always (fun past op => ¬ op.Obstructed past) [] ops) :=
  ⟨by decide, by decide, performAll_directory_eq_iff none (by decide) (by decide)⟩

/-- A key is erased that nothing is stored under, but under which something was: in memory nothing happens,
in a directory the erasure fails. -/
theorem performAll_ne_of_directory_left :
    let stored : Key := ⟨"photos", "a/b"⟩
    let missing : Key := ⟨"photos", "a"⟩
    let ops : List Operation := [.write stored (.ofBytes [1]), .erase stored, .erase missing]
    (∀ op ∈ ops, op.Valid ∧ op.Fits none) ∧ (memory {}).Apart ops ∧
      ((directory { longest := none }).performAll ops).1 ≠ ((memory {}).performAll ops).1 := by
  intro stored missing ops
  have hops : ∀ op ∈ ops, op.Valid ∧ op.Fits none := by decide
  have hapart : (memory {}).Apart ops := by decide
  refine ⟨hops, hapart, fun heq => ?_⟩
  have hfree := ((Mirrors.empty none).performAll_eq_iff hops hapart).mp heq
  refine hfree.2.2.1 ?_
  have hleads : Directory.Leads missing.segments (Operation.write stored (.ofBytes [1])).parent := by decide
  exact ⟨[], .write stored (.ofBytes [1]), [.erase stored], rfl, hleads, by simp [Operation.Removes]⟩

end Storage

end Depot
