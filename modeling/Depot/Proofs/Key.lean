import Depot.Proofs.Store.Snapshot
import Depot.Proofs.Text

/-!
# The paths of keys

The bytes of valid keys never get in each other's way: a path tells its key, and which container it is in.

## Main results

* `Key.path_inj` — keys with the same path are the same.
* `Key.isInside_path` — a path lies in the container of its own bucket only.
-/

namespace Depot

/-- Parts in front of a separator that neither of them contains are the same. -/
theorem eq_of_append_cons {α : Type} {a : α} {x y x' y' : List α} (hx : a ∉ x) (hx' : a ∉ x')
    (h : x ++ a :: y = x' ++ a :: y') : x = x' ∧ y = y' := by
  induction x generalizing x' with
  | nil =>
    cases x' with
    | nil => exact ⟨rfl, by simpa using h⟩
    | cons b x' =>
      obtain ⟨rfl, -⟩ := List.cons_eq_cons.mp h
      simp at hx'
  | cons b x ih =>
    cases x' with
    | nil =>
      obtain ⟨rfl, -⟩ := List.cons_eq_cons.mp h
      simp at hx
    | cons b' x' =>
      obtain ⟨rfl, htail⟩ := List.cons_eq_cons.mp h
      simp only [List.mem_cons, not_or] at hx hx'
      obtain ⟨rfl, rfl⟩ := ih hx.2 hx'.2 htail
      exact ⟨rfl, rfl⟩

theorem slash_not_mem {bucket : String} (h : isBucketName bucket = true) : '/' ∉ bucket.toList := by
  intro hmem
  simp only [isBucketName, Bool.and_eq_true, List.all_eq_true] at h
  have hslash := h.1.1.2 '/' hmem
  simp [isBucketEnd] at hslash

/-- No name of an object ends with a slash. -/
theorem not_isObjectName_slash (name : String) : isObjectName (name ++ "/") = false := by
  have hsplit := Text.split_append_slash name ""
  rw [String.append_empty] at hsplit
  rw [isObjectName, hsplit, List.all_append]
  simp [Text.split, Text.splitList]

namespace Key

/-- Whether a key can be that of a request. -/
def Valid (k : Key) : Prop := parse k.bucket k.name = .ok k

variable {k l : Key}

theorem valid_iff : k.Valid ↔ isBucketName k.bucket = true ∧ isObjectName k.name = true := by
  rw [Valid, parse, checkBucketName, checkObjectName]
  cases isBucketName k.bucket <;> cases isObjectName k.name <;> simp [bind, Except.bind, pure, Except.pure]

instance : DecidablePred Valid := fun _ => decidable_of_iff' _ valid_iff

theorem Valid.bucket (h : k.Valid) : isBucketName k.bucket = true := (valid_iff.mp h).1

theorem toList_path (k : Key) : k.path.toList = k.bucket.toList ++ '/' :: k.name.toList := by
  simp [path]

/-- Keys with the same path are the same. -/
theorem path_inj (hk : k.Valid) (hl : l.Valid) (h : k.path = l.path) : k = l := by
  have hlist := congrArg String.toList h
  rw [toList_path, toList_path] at hlist
  obtain ⟨hbucket, hname⟩ := eq_of_append_cons (slash_not_mem hk.bucket) (slash_not_mem hl.bucket) hlist
  obtain ⟨b, n⟩ := k
  obtain ⟨b', n'⟩ := l
  exact Key.mk.injEq .. ▸ ⟨String.toList_inj.mp hbucket, String.toList_inj.mp hname⟩

/-- A path lies in the container of its own bucket only. -/
theorem isInside_path {bucket : String} (hb : isBucketName bucket = true) (hk : k.Valid) :
    isInside bucket k.path = true ↔ k.bucket = bucket := by
  rw [isInside, List.isPrefixOf_iff_prefix, toList_path]
  constructor
  · rintro ⟨t, ht⟩
    have hlist : bucket.toList ++ '/' :: t = k.bucket.toList ++ '/' :: k.name.toList := by
      simpa using ht
    obtain ⟨hbucket, -⟩ := eq_of_append_cons (slash_not_mem hb) (slash_not_mem hk.bucket) hlist
    exact (String.toList_inj.mp hbucket).symm
  · rintro rfl
    exact ⟨k.name.toList, by simp⟩

end Key

end Depot
