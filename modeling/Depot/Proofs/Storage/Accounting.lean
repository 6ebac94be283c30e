import Depot.Proofs.Key
import Depot.Proofs.SortedMap
import Depot.Proofs.Storage.Memory
import Depot.Storage

/-!
# The books of a storage in memory

A storage in memory does not add up its bytes: it keeps a counter, and every change takes off it what goes and adds
what comes, in words of sixty-four bits. Each key has one entry, so what goes was counted, and the counter is the
number of bytes stored for as long as that number fits into it. Hence no subtraction falls below zero, and a write is
refused exactly if it would exceed the limit.

## Main definitions

* `MemoryStorage.Balanced` — the counter is right and the limit is kept.
* `MemoryStorage.Change.Does` — what a change should answer and leave.
* `MemoryStorage.Reached` — what changes have made of a new storage.

## Main results

* `MemoryStorage.Balanced.put_eq` — bytes are refused exactly if they exceed the limit with all others.
* `MemoryStorage.Balanced.change` — every change keeps the balance.
* `MemoryStorage.Reached.accounts` — what every change does to a storage that was reached, and to its counter.
-/

namespace Depot

/-! ## Adding up -/

section Totals

variable {objects : SortedMap String Bytes} {key : String}

@[simp] theorem totalSize_nil : totalSize [] = 0 := rfl

@[simp] theorem totalSize_cons (e : String × Bytes) (rest : SortedMap String Bytes) :
    totalSize (e :: rest) = e.2.length + totalSize rest := rfl

theorem totalSize_filter_add (p : String × Bytes → Bool) (objects : SortedMap String Bytes) :
    totalSize (objects.filter p) + totalSize (objects.filter fun e => !p e) = totalSize objects := by
  induction objects with
  | nil => rfl
  | cons e rest ih => cases hp : p e <;> simp [hp] <;> omega

/-- How many bytes there are under a key. -/
def heldSize (objects : SortedMap String Bytes) (key : String) : Nat :=
  ((SortedMap.get? objects key).map List.length).getD 0

theorem heldSize_cons (e : String × Bytes) (rest : SortedMap String Bytes) (key : String) :
    heldSize (e :: rest) key = if e.1 = key then e.2.length else heldSize rest key := by
  by_cases h : e.1 = key <;> simp [heldSize, SortedMap.get?, h]

/-- An entry in front of all others has the only bytes under its key. -/
theorem heldSize_eq_zero (h : ∀ e ∈ objects, e.1 ≠ key) : heldSize objects key = 0 := by
  have hnone : SortedMap.get? objects key = none := by simpa [SortedMap.get?] using h
  rw [heldSize, hnone]
  rfl

theorem ne_of_sorted_cons {e : String × Bytes} (h : SortedMap.Sorted (e :: objects)) :
    ∀ x ∈ objects, x.1 ≠ e.1 := by
  intro x hx heq
  have hlt := (List.pairwise_cons.mp h).1 x hx
  rw [heq] at hlt
  simp at hlt

/-- What goes with a key are its bytes. -/
theorem totalSize_erase_add (h : objects.Sorted) (key : String) :
    totalSize (SortedMap.erase objects key) + heldSize objects key = totalSize objects := by
  induction objects with
  | nil => rfl
  | cons e rest ih =>
    have hrest := ih (List.pairwise_cons.mp h).2
    rw [heldSize_cons, totalSize_cons]
    by_cases he : e.1 = key
    · have hone := heldSize_eq_zero (he ▸ ne_of_sorted_cons h)
      have herase : SortedMap.erase (e :: rest) key = SortedMap.erase rest key := by simp [SortedMap.erase, he]
      rw [herase, if_pos he]
      omega
    · have herase : SortedMap.erase (e :: rest) key = e :: SortedMap.erase rest key := by simp [SortedMap.erase, he]
      rw [herase, if_neg he, totalSize_cons]
      omega

/-- New bytes take the place of those under their key. -/
theorem totalSize_insert_add (h : objects.Sorted) (key : String) (bytes : Bytes) :
    totalSize (SortedMap.insert objects key bytes) + heldSize objects key = totalSize objects + bytes.length := by
  induction objects with
  | nil => simp [SortedMap.insert, heldSize, SortedMap.get?]
  | cons e rest ih =>
    have hrest := ih (List.pairwise_cons.mp h).2
    rw [heldSize_cons, SortedMap.insert]
    split
    · simp only [totalSize_cons]
      omega
    · split
      · next hlt =>
        -- The key is in front of all entries, so it has none.
        have hnone : heldSize rest key = 0 := by
          refine heldSize_eq_zero fun x hx heq => ?_
          have hafter : compare key x.1 = .lt := Std.TransCmp.lt_trans hlt ((List.pairwise_cons.mp h).1 x hx)
          rw [heq] at hafter
          simp at hafter
        simp only [totalSize_cons]
        omega
      · simp only [totalSize_cons]
        omega

/-- Putting bytes in place comes to what is there without the key, and the bytes. -/
theorem totalSize_insert (h : objects.Sorted) (key : String) (bytes : Bytes) :
    totalSize (SortedMap.insert objects key bytes) = totalSize (SortedMap.erase objects key) + bytes.length := by
  have herase := totalSize_erase_add h key
  have hinsert := totalSize_insert_add h key bytes
  omega

/-- Words add up to the total for as long as it fits. -/
theorem toNat_foldl_length (objects : SortedMap String Bytes) (n : UInt64)
    (h : n.toNat + totalSize objects < 2 ^ 64) :
    (objects.foldl (fun n e => n + .ofNat e.2.length) n).toNat = n.toNat + totalSize objects := by
  induction objects generalizing n with
  | nil => rfl
  | cons e rest ih =>
    rw [totalSize_cons] at h ⊢
    have hnext : (n + .ofNat e.2.length).toNat = n.toNat + e.2.length := by
      rw [UInt64.toNat_add, UInt64.toNat_ofNat', Nat.add_mod_mod, Nat.mod_eq_of_lt (by omega)]
    rw [List.foldl_cons, ih _ (by omega), hnext, Nat.add_assoc]

end Totals

namespace MemoryStorage

variable {s t : MemoryStorage} {key bucket : String} {bytes : Bytes}

/-! ## Words -/

/-- Whether the counter is right, and the limit is kept. -/
structure Balanced (s : MemoryStorage) : Prop where
  /-- Each key has one entry. -/
  sorted : s.objects.Sorted
  counter : s.counter.toNat = totalSize s.objects
  limit : s.limit ≠ 0 → totalSize s.objects ≤ s.limit

/-- The entries in the container of a bucket. -/
def inside (s : MemoryStorage) (bucket : String) : SortedMap String Bytes :=
  s.objects.filter fun e => isInside bucket e.1

namespace Balanced

theorem totalSize_lt (h : s.Balanced) : totalSize s.objects < 2 ^ 64 := h.counter ▸ s.counter.toNat_lt

theorem toNat_sizeAt (h : s.Balanced) (key : String) : (s.sizeAt key).toNat = heldSize s.objects key := by
  have hlt := h.totalSize_lt
  have htotal := totalSize_erase_add h.sorted key
  exact UInt64.toNat_ofNat_of_lt' (show heldSize s.objects key < 2 ^ 64 by omega)

/-- What is under a key was counted. -/
theorem sizeAt_le (h : s.Balanced) (key : String) : s.sizeAt key ≤ s.counter := by
  have htotal := totalSize_erase_add h.sorted key
  rw [UInt64.le_iff_toNat_le, h.toNat_sizeAt, h.counter]
  omega

theorem toNat_counter_sub (h : s.Balanced) (key : String) :
    (s.counter - s.sizeAt key).toNat = totalSize (SortedMap.erase s.objects key) := by
  have htotal := totalSize_erase_add h.sorted key
  rw [UInt64.toNat_sub_of_le _ _ (h.sizeAt_le key), h.counter, h.toNat_sizeAt]
  omega

/-- The counter comes to what is there without the key, and the bytes, up to its width. -/
theorem toNat_projected (h : s.Balanced) (key : String) (bytes : Bytes) : (s.projected key bytes).toNat =
    (totalSize (SortedMap.erase s.objects key) + bytes.length) % 2 ^ 64 := by
  rw [projected, UInt64.toNat_add, h.toNat_counter_sub, UInt64.toNat_ofNat', Nat.add_mod_mod]

theorem toNat_freed (h : s.Balanced) (bucket : String) : (s.freed bucket).toNat = totalSize (s.inside bucket) := by
  have hlt := h.totalSize_lt
  have htotal := totalSize_filter_add (fun e => isInside bucket e.1) s.objects
  have hsum := toNat_foldl_length (s.inside bucket) 0 (by rw [inside, UInt64.toNat_zero]; omega)
  rw [UInt64.toNat_zero, Nat.zero_add] at hsum
  exact hsum

/-- What is in the container of a bucket was counted. -/
theorem freed_le (h : s.Balanced) (bucket : String) : s.freed bucket ≤ s.counter := by
  have htotal := totalSize_filter_add (fun e => isInside bucket e.1) s.objects
  rw [UInt64.le_iff_toNat_le, h.toNat_freed, h.counter, inside]
  omega

end Balanced

/-! ## Changes -/

/-- What changes a storage: the bytes of a source under a key, and the removal of a key and of a bucket. -/
inductive Change where
  | write (key : String) (source : Source)
  | erase (key : String)
  | eraseBucket (bucket : String)

namespace Change

/-- Make a change to a storage; a write answers the number of bytes. -/
def run (c : Change) (s : Storage) : Except StoreError Nat × Storage :=
  match c with
  | write key source => s.write key source
  | erase key => let (r, s) := s.erase key; (r.map fun () => 0, s)
  | eraseBucket bucket => let (r, s) := s.eraseBucket bucket; (r.map fun () => 0, s)

/-- What a change answers and leaves, by the entries alone. -/
def Does (c : Change) (s : MemoryStorage) (answer : Except StoreError Nat) (t : MemoryStorage) : Prop :=
  match c with
  | write key source =>
    match source.readToEnd with
    | (_, some e) => answer = .error (.io e) ∧ t = s
    | (bytes, none) =>
      let needed := totalSize (SortedMap.erase s.objects key) + bytes.length
      if s.limit ≠ 0 ∧ s.limit < needed then
        answer = .error (.limitExceeded (needed % 2 ^ 64) s.limit) ∧ t = s
      else answer = .ok bytes.length ∧ ∀ other, SortedMap.get? t.objects other =
        if other = key then some bytes else SortedMap.get? s.objects other
  | erase key => answer = .ok 0 ∧ ∀ other, SortedMap.get? t.objects other =
      if other = key then none else SortedMap.get? s.objects other
  | eraseBucket bucket => answer = .ok 0 ∧ ∀ other, SortedMap.get? t.objects other =
      if isInside bucket other then none else SortedMap.get? s.objects other

end Change

/-! ## The balance is kept -/

namespace Balanced

theorem new (limit : Nat) : Balanced { limit } where
  sorted := List.Pairwise.nil
  counter := rfl
  limit _ := Nat.zero_le _

/-- Bytes are put in place unless they exceed the limit with all others: the counter comes to their total, as long
as what is stored fits into it. -/
theorem put_eq (h : s.Balanced) (hfits : totalSize (s.put key bytes).2.objects < 2 ^ 64) :
    let needed := totalSize (SortedMap.erase s.objects key) + bytes.length
    s.put key bytes =
      if s.limit ≠ 0 ∧ s.limit < needed then (.error (.limitExceeded (needed % 2 ^ 64) s.limit), s)
      else (.ok bytes.length, ⟨SortedMap.insert s.objects key bytes, s.limit, .ofNat needed⟩) := by
  dsimp only
  have hneeded := h.toNat_projected key bytes
  rw [MemoryStorage.put, hneeded] at hfits ⊢
  split at hfits <;> rename_i hlimit
  · -- What is refused is too much, even where the counter runs over.
    have hle := Nat.mod_le (totalSize (SortedMap.erase s.objects key) + bytes.length) (2 ^ 64)
    rw [if_pos hlimit, if_pos ⟨hlimit.1, Nat.lt_of_lt_of_le hlimit.2 hle⟩]
  · rw [totalSize_insert h.sorted] at hfits
    rw [if_neg hlimit, ← Nat.mod_eq_of_lt hfits, if_neg hlimit, ← hneeded, UInt64.ofNat_toNat]

theorem put (h : s.Balanced) (hfits : totalSize (s.put key bytes).2.objects < 2 ^ 64) :
    (s.put key bytes).2.Balanced := by
  have heq := h.put_eq hfits
  dsimp only at heq
  rw [heq] at hfits ⊢
  split at hfits <;> rename_i hlimit
  · rw [if_pos hlimit]
    exact h
  · rw [if_neg hlimit]
    rw [totalSize_insert h.sorted] at hfits
    refine ⟨h.sorted.insert key bytes, ?_, fun hne => ?_⟩
    · rw [totalSize_insert h.sorted]
      exact UInt64.toNat_ofNat_of_lt' hfits
    · rw [totalSize_insert h.sorted]
      exact Nat.le_of_not_lt fun hlt => hlimit ⟨hne, hlt⟩

theorem erase (h : s.Balanced) (key : String) : (s.erase key).Balanced where
  sorted := h.sorted.filter _
  counter := h.toNat_counter_sub key
  limit hne := by
    have htotal := totalSize_erase_add h.sorted key
    have hlimit := h.limit hne
    dsimp only [MemoryStorage.erase] at hlimit ⊢
    omega

theorem eraseBucket (h : s.Balanced) (bucket : String) : (s.eraseBucket bucket).Balanced := by
  have htotal := totalSize_filter_add (fun e => isInside bucket e.1) s.objects
  refine ⟨h.sorted.filter _, ?_, fun hne => ?_⟩
  · have hsub := UInt64.toNat_sub_of_le _ _ (h.freed_le bucket)
    rw [h.counter, h.toNat_freed, inside] at hsub
    exact hsub.trans (Nat.sub_eq_of_eq_add (by rw [Nat.add_comm]; exact htotal.symm))
  · have hlimit := h.limit hne
    exact Nat.le_trans (Nat.le.intro ((Nat.add_comm _ _).trans htotal)) hlimit

/-- Every change keeps the balance and does what it should, as long as what is stored fits into the counter. -/
theorem change (h : s.Balanced) (c : Change) : ∃ answer t, c.run (.memory s) = (answer, .memory t) ∧
    (totalSize t.objects < 2 ^ 64 → t.Balanced ∧ t.limit = s.limit ∧ c.Does s answer t) := by
  cases c with
  | write key source =>
    rcases hread : source.readToEnd with ⟨bytes, failure⟩
    cases failure with
    | some e =>
      refine ⟨.error (.io e), s, by simp [Change.run, Storage.write, Storage.stage, hread], fun _ => ⟨h, rfl, ?_⟩⟩
      simp [Change.Does, hread]
    | none =>
      refine ⟨(s.put key bytes).1, (s.put key bytes).2, ?_, fun hfits => ⟨h.put hfits, ?_, ?_⟩⟩
      · simp [Change.run, Storage.write, Storage.stage, Storage.put, hread]
      · rw [h.put_eq hfits]
        split <;> rfl
      · rw [h.put_eq hfits]
        simp only [Change.Does, hread]
        split
        · exact ⟨rfl, rfl⟩
        · exact ⟨rfl, fun other => SortedMap.get?_insert s.objects key other bytes⟩
  | erase key =>
    exact ⟨.ok 0, s.erase key, rfl, fun _ => ⟨h.erase key, rfl, rfl, SortedMap.get?_erase s.objects key⟩⟩
  | eraseBucket bucket =>
    exact ⟨.ok 0, s.eraseBucket bucket, rfl, fun _ => ⟨h.eraseBucket bucket, rfl, rfl, get?_eraseBucket s bucket⟩⟩

end Balanced

/-! ## Runs -/

/-- What changes, one after the other, have made of a new storage with a limit, where the bytes stored always fitted
into the counter. -/
inductive Reached (limit : Nat) : List Change → MemoryStorage → Prop where
  | new : Reached limit [] { limit }
  | step {past : List Change} {s t : MemoryStorage} (h : Reached limit past s) (c : Change)
      (hrun : (c.run (.memory s)).2 = .memory t) (hfits : totalSize t.objects < 2 ^ 64) :
      Reached limit (past ++ [c]) t

namespace Reached

variable {limit : Nat} {past : List Change}

theorem balanced (h : Reached limit past s) : s.Balanced ∧ s.limit = limit := by
  induction h with
  | new => exact ⟨.new limit, rfl⟩
  | step _ c hrun hfits ih =>
    obtain ⟨answer, u, heq, hnext⟩ := ih.1.change c
    rw [heq] at hrun
    cases hrun
    obtain ⟨hbalanced, hlimit, -⟩ := hnext hfits
    exact ⟨hbalanced, hlimit.trans ih.2⟩

/-- The counter of a storage in memory is the number of bytes stored, never above the limit, and what a change takes
off it was counted. A change does what it should, and only that; in particular a write is refused exactly if it would
exceed the limit, and leaves everything as it was if it is refused or its source fails. The removal of a bucket takes
the valid keys of that bucket and no others. -/
theorem accounts (h : Reached limit past s) :
    s.limit = limit ∧ s.objects.Sorted ∧ s.used = totalSize s.objects ∧ (limit ≠ 0 → s.used ≤ limit) ∧
      (∀ key, s.sizeAt key ≤ s.counter) ∧ (∀ bucket, s.freed bucket ≤ s.counter) ∧
      (∀ c : Change, ∃ answer t, c.run (.memory s) = (answer, .memory t) ∧
        (totalSize t.objects < 2 ^ 64 → c.Does s answer t)) ∧
      ∀ (bucket : String) (k : Key), isBucketName bucket = true → k.Valid →
        SortedMap.get? (s.eraseBucket bucket).objects k.path =
          if k.bucket = bucket then none else SortedMap.get? s.objects k.path := by
  obtain ⟨hbalanced, hlimit⟩ := h.balanced
  have hused : s.used = totalSize s.objects := hbalanced.counter
  refine ⟨hlimit, hbalanced.sorted, hused, fun hne => ?_, hbalanced.sizeAt_le, hbalanced.freed_le, fun c => ?_,
    fun bucket k hbucket hk => ?_⟩
  · rw [hused, ← hlimit]
    exact hbalanced.limit (hlimit ▸ hne)
  · obtain ⟨answer, t, hrun, hnext⟩ := hbalanced.change c
    exact ⟨answer, t, hrun, fun hfits => (hnext hfits).2.2⟩
  · rw [get?_eraseBucket]
    exact if_congr (Key.isInside_path hbucket hk) rfl rfl

/-- Beside the first object there is no room for the second one, a source fails, and the bucket goes. -/
theorem accounts_refused_failed_erased : ∃ s, Reached 8
    [.write "pics/a" (.ofBytes [1, 2, 3, 4, 5]), .write "pics/b" (.ofBytes [6, 7, 8, 9]),
      .write "pics/a" ⟨[.failure ⟨.other, "no", false⟩], false⟩, .write "pics2/a" (.ofBytes [0]),
      .eraseBucket "pics"] s ∧
    s.objects = [("pics2/a", [0])] ∧ s.used = totalSize s.objects ∧ (8 ≠ 0 → s.used ≤ 8) := by
  have hfirst : Reached 8 _ ⟨[("pics/a", [1, 2, 3, 4, 5])], 8, 5⟩ :=
    Reached.new.step (.write "pics/a" (.ofBytes [1, 2, 3, 4, 5])) rfl (by decide)
  have hrefused : Reached 8 _ ⟨[("pics/a", [1, 2, 3, 4, 5])], 8, 5⟩ :=
    hfirst.step (.write "pics/b" (.ofBytes [6, 7, 8, 9])) rfl (by decide)
  have hfailed : Reached 8 _ ⟨[("pics/a", [1, 2, 3, 4, 5])], 8, 5⟩ :=
    hrefused.step (.write "pics/a" ⟨[.failure ⟨.other, "no", false⟩], false⟩) rfl (by decide)
  have hbeside : Reached 8 _ ⟨[("pics/a", [1, 2, 3, 4, 5]), ("pics2/a", [0])], 8, 6⟩ :=
    hfailed.step (.write "pics2/a" (.ofBytes [0])) rfl (by decide)
  have herased : Reached 8 _ ⟨[("pics2/a", [0])], 8, 1⟩ := hbeside.step (.eraseBucket "pics") rfl (by decide)
  obtain ⟨-, -, hused, hlimit, -⟩ := herased.accounts
  exact ⟨_, herased, rfl, hused, hlimit⟩

end Reached

end MemoryStorage

end Depot
