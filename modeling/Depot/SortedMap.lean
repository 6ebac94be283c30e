/-!
# Sorted maps

A map is the list of its entries in the order of their keys. Looking up finds the first entry of a
key, and inserting replaces it or puts the new entry where it belongs.
-/

namespace Depot

/-- A map with its entries in the order of their keys. -/
abbrev SortedMap (κ α : Type) := List (κ × α)

namespace SortedMap

variable {κ α : Type} [DecidableEq κ] [Ord κ]

def get? (m : SortedMap κ α) (key : κ) : Option α :=
  (m.find? fun e => e.1 = key).map (·.2)

/-- The map in which a key has a value. -/
def insert (m : SortedMap κ α) (key : κ) (value : α) : SortedMap κ α :=
  match m with
  | [] => [(key, value)]
  | e :: rest =>
    if e.1 = key then (key, value) :: rest
    else if compare key e.1 = .lt then (key, value) :: e :: rest
    else e :: insert rest key value

def erase (m : SortedMap κ α) (key : κ) : SortedMap κ α := m.filter fun e => e.1 ≠ key

/-- The map of some entries; a later entry of a key replaces an earlier one. -/
def ofList (entries : List (κ × α)) : SortedMap κ α :=
  entries.foldl (fun m e => insert m e.1 e.2) []

theorem get?_insert (m : SortedMap κ α) (key other : κ) (value : α) :
    get? (insert m key value) other = if other = key then some value else get? m other := by
  induction m with
  | nil => by_cases h : other = key <;> simp [insert, get?, h, eq_comm]
  | cons e rest ih =>
    unfold insert
    split
    · rename_i he
      by_cases h : other = key <;> simp_all [get?, eq_comm]
    · rename_i he
      split
      · by_cases h : other = key <;> simp_all [get?, eq_comm]
      · by_cases ho : e.1 = other
        · by_cases h : other = key <;> simp_all [get?]
        · simp only [get?, List.find?_cons, ho, decide_false] at ih ⊢
          exact ih

omit [Ord κ] in
theorem get?_erase (m : SortedMap κ α) (key other : κ) :
    get? (erase m key) other = if other = key then none else get? m other := by
  induction m with
  | nil => simp [erase, get?]
  | cons e rest ih =>
    by_cases he : e.1 = key <;> by_cases ho : e.1 = other <;> by_cases h : other = key <;>
      simp_all [erase, get?]

end SortedMap

end Depot
