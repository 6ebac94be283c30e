import Depot.Key
import Depot.SortedMap
import Mathlib.Data.List.Nodup
import Mathlib.Data.String.Basic
import Mathlib.Order.Compare

/-!
# The order of sorted maps

The entries of a map that was built by insertions are in the order of their keys, one for each key, so that
looking up finds every entry. Keys of objects are ordered by their buckets, then by their names.

## Main results

* `SortedMap.Sorted.insert` — inserting keeps the order.
* `SortedMap.Sorted.get?_eq_some_iff` — the entries are those that looking up finds.
* `SortedMap.Sorted.ofList_of_perm` — a map is built from its own entries, in whatever order they come.
-/

namespace Depot

namespace SortedMap

variable {κ α : Type} [Ord κ] {m : SortedMap κ α} {key : κ} {value : α} {e : κ × α}

/-- Whether the entries are in the order of their keys, one for each key. -/
def Sorted (m : SortedMap κ α) : Prop := m.Pairwise fun a b => compare a.1 b.1 = .lt

instance (m : SortedMap κ α) : Decidable m.Sorted := inferInstanceAs (Decidable (m.Pairwise _))

variable [DecidableEq κ]

theorem mem_of_mem_insert (h : e ∈ insert m key value) : e = (key, value) ∨ e ∈ m := by
  induction m with
  | nil => exact .inl (by simpa [insert] using h)
  | cons x rest ih =>
    rw [insert] at h
    split at h
    · rcases List.mem_cons.mp h with h | h
      · exact .inl h
      · exact .inr (List.mem_cons_of_mem _ h)
    · split at h
      · exact List.mem_cons.mp h
      · rcases List.mem_cons.mp h with h | h
        · exact .inr (h ▸ List.mem_cons_self)
        · exact (ih h).imp_right (List.mem_cons_of_mem _)

/-- An entry of a new key is put between the others. -/
theorem insert_perm (h : key ∉ m.map (·.1)) : (insert m key value).Perm ((key, value) :: m) := by
  fun_induction insert m key value with
  | case1 => rfl
  | case2 e rest heq =>
    apply absurd _ h
    simp [heq]
  | case3 => rfl
  | case4 e rest _ _ ih =>
    rw [List.map_cons, List.mem_cons, not_or] at h
    exact ((ih h.2).cons e).trans (.swap _ _ _)

omit [Ord κ] in
theorem mem_of_get? (h : get? m key = some value) : (key, value) ∈ m := by
  obtain ⟨⟨k, x⟩, hfind, rfl⟩ := Option.map_eq_some_iff.mp h
  obtain rfl : k = key := by simpa using List.find?_some hfind
  exact List.mem_of_find?_eq_some hfind

omit [Ord κ] in
theorem isSome_get?_of_mem (h : e ∈ m) : (get? m e.1).isSome = true := by
  rw [get?, Option.isSome_map, List.find?_isSome]
  exact ⟨e, h, by simp⟩

variable [Std.LawfulEqOrd κ]

/-- The entries are those that looking up finds. -/
theorem Sorted.get?_eq_some_iff (h : Sorted m) : get? m key = some value ↔ (key, value) ∈ m := by
  refine ⟨mem_of_get?, fun hmem => ?_⟩
  induction m with
  | nil => cases hmem
  | cons x rest ih =>
    obtain ⟨hx, hrest⟩ := List.pairwise_cons.mp h
    rcases List.mem_cons.mp hmem with rfl | hmem
    · simp [get?]
    · have hne : x.1 ≠ key := by
        rintro rfl
        simpa using hx _ hmem
      have hfind := ih hrest hmem
      rw [get?] at hfind ⊢
      rwa [List.find?_cons_of_neg (by simpa using hne)]

omit [DecidableEq κ] in
theorem Sorted.nodup_keys (h : Sorted m) : (m.map (·.1)).Nodup := by
  refine List.pairwise_map.mpr (List.Pairwise.imp (fun {a b} hlt heq => ?_) h)
  simp [heq] at hlt

variable [Std.TransOrd κ]

theorem Sorted.insert (h : Sorted m) (key : κ) (value : α) : Sorted (insert m key value) := by
  induction m with
  | nil => simp [SortedMap.insert, Sorted]
  | cons x rest ih =>
    obtain ⟨hx, hrest⟩ := List.pairwise_cons.mp h
    rw [SortedMap.insert]
    split
    · rename_i heq
      exact List.pairwise_cons.mpr ⟨fun e he => heq ▸ hx e he, hrest⟩
    · rename_i hne
      split
      · rename_i hlt
        refine List.pairwise_cons.mpr ⟨fun e he => ?_, h⟩
        rcases List.mem_cons.mp he with rfl | he
        · exact hlt
        · exact Std.TransCmp.lt_trans hlt (hx e he)
      · rename_i hnot
        have hafter : compare x.1 key = .lt := by
          refine Std.OrientedCmp.gt_iff_lt.mp ?_
          cases hc : compare key x.1 with
          | lt => exact absurd hc hnot
          | eq => exact absurd (Std.LawfulEqCmp.compare_eq_iff_eq.mp hc).symm hne
          | gt => rfl
        refine List.pairwise_cons.mpr ⟨fun e he => ?_, ih hrest⟩
        rcases mem_of_mem_insert he with rfl | he
        · exact hafter
        · exact hx e he

/-- A map of any entries is in order. -/
theorem sorted_ofList (entries : List (κ × α)) : Sorted (ofList entries) := by
  suffices h : ∀ m : SortedMap κ α, Sorted m →
      Sorted (entries.foldl (fun m e => SortedMap.insert m e.1 e.2) m) from h [] List.Pairwise.nil
  induction entries with
  | nil => exact fun m hm => hm
  | cons e rest ih => exact fun m hm => ih _ (hm.insert e.1 e.2)

omit [Std.TransOrd κ] [Std.LawfulEqOrd κ] in
/-- A map of entries of different keys has all of them. -/
theorem ofList_perm {entries : List (κ × α)} (h : (entries.map (·.1)).Nodup) : (ofList entries).Perm entries := by
  suffices hfold : ∀ m : SortedMap κ α, ((m ++ entries).map (·.1)).Nodup →
      (entries.foldl (fun m e => SortedMap.insert m e.1 e.2) m).Perm (m ++ entries) from hfold [] h
  clear h
  induction entries with
  | nil => exact fun m _ => .of_eq (List.append_nil m).symm
  | cons e rest ih =>
    intro m hm
    have hnew : e.1 ∉ m.map (·.1) := by
      rw [List.map_append, List.nodup_append] at hm
      exact fun hmem => hm.2.2 _ hmem e.1 List.mem_cons_self rfl
    have hinsert : (SortedMap.insert m e.1 e.2 ++ rest).Perm (m ++ e :: rest) :=
      ((insert_perm hnew).append_right rest).trans List.perm_middle.symm
    exact (ih _ ((hinsert.map _).nodup_iff.mpr hm)).trans hinsert

/-- A map is built from its own entries, in whatever order they come. -/
theorem Sorted.ofList_of_perm {entries : List (κ × α)} (h : Sorted m) (hperm : entries.Perm m) :
    ofList entries = m := by
  have hnodup : (entries.map (·.1)).Nodup := (hperm.map _).nodup_iff.mpr h.nodup_keys
  refine List.Perm.eq_of_pairwise (fun a b _ _ hab hba => ?_) (sorted_ofList entries) h
    ((ofList_perm hnodup).trans hperm)
  exact absurd hba (Std.OrientedCmp.not_lt_of_lt hab)

end SortedMap

/-! ## Keys of objects -/

namespace Key

instance : Std.TransOrd Key :=
  inferInstanceAs (Std.TransCmp (compareLex (compareOn Key.bucket) (compareOn Key.name)))

instance : Std.LawfulEqOrd Key where
  compare_self := Std.ReflCmp.compare_self
  eq_of_compare {a b} h := by
    obtain ⟨hbucket, hname⟩ := Ordering.then_eq_eq.mp h
    cases a
    cases b
    obtain rfl := Std.LawfulEqCmp.compare_eq_iff_eq.mp hbucket
    obtain rfl := Std.LawfulEqCmp.compare_eq_iff_eq.mp hname
    rfl

/-- Within a bucket, keys are ordered by their names. -/
theorem compare_mk_eq_lt_iff (bucket : String) {a b : String} :
    compare (⟨bucket, a⟩ : Key) ⟨bucket, b⟩ = .lt ↔ a < b := by
  have hself : compare bucket bucket = .eq := Std.ReflCmp.compare_self
  show (compare bucket bucket).then (compare a b) = .lt ↔ a < b
  rw [hself, Ordering.eq_then]
  exact compare_lt_iff_lt

end Key

end Depot
