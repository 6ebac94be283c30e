import Depot.Filter
import Mathlib.Data.List.Basic

/-!
# Filters

What it means for a record to meet the criteria of a filter, one by one.

## Main results

* `Filter.accepts_iff` — each criterion that is set holds of an accepted record.
-/

namespace Depot

/-- A text begins with another one if something can be put after that to make it. -/
theorem isPrefixOf_toList_iff {s start : String} :
    start.toList.isPrefixOf s.toList = true ↔ ∃ rest, s = start ++ rest := by
  rw [List.isPrefixOf_iff_prefix]
  constructor
  · rintro ⟨rest, hrest⟩
    exact ⟨String.ofList rest, String.toList_inj.mp (by simp [hrest])⟩
  · rintro ⟨rest, rfl⟩
    exact ⟨rest.toList, by simp⟩

namespace Filter

variable {f : Filter} {r : ObjectRecord}

theorem holds_iff {α : Type} {criterion : Option α} {p : α → Bool} :
    holds criterion p = true ↔ ∀ a, criterion = some a → p a = true := by
  cases criterion <;> simp [holds]

/-- Each criterion that is set holds of an accepted record. -/
theorem accepts_iff : f.accepts r = true ↔
    (∀ start, f.nameStart = some start → ∃ rest, r.name = start ++ rest) ∧
      (f.statuses = [] ∨ r.status ∈ f.statuses) ∧
      (∀ t, f.createdBefore = some t → ∃ c, r.creation = some c ∧ c.before t = true) ∧
      (∀ t, f.createdAfter = some t → ∃ c, r.creation = some c ∧ t.before c = true) ∧
      (∀ n, f.sizeBelow = some n → r.size < n) ∧ ∀ n, f.sizeAbove = some n → n < r.size := by
  simp only [accepts, Bool.and_eq_true, holds_iff, isPrefixOf_toList_iff, Bool.or_eq_true, List.isEmpty_iff,
    List.contains_iff_mem, Option.any_eq_true, decide_eq_true_eq, and_assoc]

end Filter

end Depot
