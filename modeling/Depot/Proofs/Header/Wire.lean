import Depot.Proofs.Header
import Mathlib.Data.List.Induction

/-!
# Header blocks on the wire

What a block of headers gives under a name once it went over the wire: of the values that can be written
there, the last one whose name is the same up to case. There is never more than one.

## Main results

* `Fields.values_insert` — a value that is put in stands alone.
* `Fields.values_onWire` — at most one value is left for each name.
* `Fields.sent?_of_nodup` — what is left of a block whose names are those of the wire.
-/

namespace Depot

namespace Fields

/-- The values of a block under a name, in their order. -/
def values (f : Fields) (name : String) : List String := (f.filter fun e => e.1 = name).map (·.2)

variable (f : Fields) (name value other : String)

/-- A value that is put in stands alone. -/
theorem values_insert : (f.insert name value).values other = if other = name then [value] else f.values other := by
  rw [insert, values, List.filter_append, List.filter_filter, List.map_append]
  by_cases h : other = name
  · subst h
    have hnone : f.filter (fun e => decide (e.1 = other) && (e.1 != other)) = [] := by
      rw [List.filter_eq_nil_iff]
      simp
    rw [hnone, if_pos rfl]
    simp
  · have hkept : f.filter (fun e => decide (e.1 = other) && (e.1 != name)) = f.filter fun e => e.1 = other := by
      refine List.filter_congr fun e _ => ?_
      by_cases he : e.1 = other <;> simp [he, h]
    rw [hkept, if_neg h]
    simp [values, Ne.symm h]

theorem get?_eq_head?_values : f.get? name = (f.values name).head? := by
  induction f with
  | nil => rfl
  | cons e rest ih =>
    rw [get?_cons, values, List.filter_cons]
    by_cases h : e.1 = name
    · simp [h]
    · rw [if_neg (Ne.symm h), ih, if_neg (by simpa using h)]
      rfl

theorem values_ofList (entries : List (String × String)) :
    (ofList entries).values name = (values entries name).getLast?.toList := by
  induction entries using List.reverseRecOn with
  | nil => rfl
  | append_singleton entries e ih =>
    have hlast : ofList (entries ++ [e]) = (ofList entries).insert e.1 e.2 := by
      rw [ofList, List.foldl_append]
      rfl
    rw [hlast, values_insert, ih, values, values, List.filter_append, List.map_append]
    by_cases h : name = e.1
    · simp [h]
    · simp [h, Ne.symm h]

/-- The value that a block gives under a name on the wire: the last one that can be written there, whatever
the case of its name. -/
def sent? : Option String :=
  (f.filter fun e => validName e.1 ∧ validValue e.2 ∧ Text.lower e.1 = name).getLast?.map (·.2)

/-- At most one value is left for each name. -/
theorem values_onWire : f.onWire.values name = (f.sent? name).toList := by
  rw [onWire, values_ofList, sent?, values, List.filter_map, List.filter_filter, List.map_map]
  have hfilter : (f.filter fun e => ((fun e : String × String => decide (e.1 = name)) ∘
      fun e => (Text.lower e.1, e.2)) e && (validName e.1 && validValue e.2)) =
      f.filter fun e => validName e.1 ∧ validValue e.2 ∧ Text.lower e.1 = name := by
    refine List.filter_congr fun e _ => ?_
    by_cases h : Text.lower e.1 = name <;> simp [h]
  rw [hfilter, List.getLast?_map]
  rfl

theorem get?_onWire : f.onWire.get? name = f.sent? name := by
  rw [get?_eq_head?_values, values_onWire]
  cases f.sent? name <;> rfl

variable {f name value other}

theorem sent?_insert_self (hname : validName name = true) (hvalue : validValue value = true)
    (hlower : Text.lower name = other) : (f.insert name value).sent? other = some value := by
  rw [sent?, insert, List.filter_append, List.filter_cons_of_pos (by simp [hname, hvalue, hlower])]
  simp

theorem sent?_insert_of_ne (h : Text.lower name ≠ other) : (f.insert name value).sent? other = f.sent? other := by
  rw [sent?, sent?, insert, List.filter_append, List.filter_cons_of_neg (by simp [h]), List.filter_nil,
    List.append_nil, List.filter_filter]
  congr 2
  refine List.filter_congr fun e _ => ?_
  by_cases he : e.1 = name
  · simp [he, h]
  · simp [he]

/-! ## Blocks that are on the wire already -/

theorem values_of_nodup (h : (f.map (·.1)).Nodup) : f.values name = (f.get? name).toList := by
  induction f with
  | nil => rfl
  | cons e rest ih =>
    rw [List.map_cons, List.nodup_cons] at h
    rw [get?_cons, values, List.filter_cons]
    by_cases he : e.1 = name
    · have hnone : rest.filter (fun e => e.1 = name) = [] := by
        rw [List.filter_eq_nil_iff]
        intro x hx hsame
        exact h.1 (he ▸ decide_eq_true_iff.mp hsame ▸ List.mem_map_of_mem hx)
      simp [he, hnone]
    · rw [if_neg (by simpa using he), if_neg (Ne.symm he), ← ih h.2, values]

/-- A block whose names are different, and in lower case, loses only values that cannot be written. -/
theorem sent?_of_nodup (h : (f.map (·.1)).Nodup)
    (hnames : ∀ e ∈ f, validName e.1 = true ∧ Text.lower e.1 = e.1) :
    f.sent? name = (f.get? name).filter validValue := by
  have hfilter : f.filter (fun e => validName e.1 ∧ validValue e.2 ∧ Text.lower e.1 = name) =
      (f.filter fun e => e.1 = name).filter fun e => validValue e.2 := by
    rw [List.filter_filter]
    refine List.filter_congr fun e he => ?_
    obtain ⟨hvalid, hlower⟩ := hnames e he
    simp [hvalid, hlower]
  have hvalues : ((f.filter fun e => e.1 = name).filter fun e => validValue e.2).map (·.2) =
      (f.values name).filter validValue := by
    rw [values, List.filter_map]
    rfl
  rw [sent?, hfilter, ← List.getLast?_map, hvalues, values_of_nodup h]
  cases f.get? name with
  | none => rfl
  | some value => cases hvalue : validValue value <;> simp [Option.filter_some, hvalue]

end Fields

end Depot
