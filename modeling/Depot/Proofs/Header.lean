import Depot.Record
import Depot.Transfer.Hooks

/-!
# Header blocks

What stands under a name after a value was put under another one, and what a record puts under its names.

## Main results

* `Fields.get?_insert` — one value at a time is replaced.
* `Fields.get?_filter_nonempty` — leaving out empty values hides nothing else.
-/

namespace Depot

namespace Fields

variable (f : Fields) (name value other : String)

theorem get?_nil : get? [] name = none := rfl

theorem get?_cons (e : String × String) :
    get? (e :: f) name = if name = e.1 then some e.2 else f.get? name := by
  obtain ⟨key, value⟩ := e
  rw [get?, List.lookup_cons]
  by_cases h : name = key
  · rw [if_pos h, h, beq_self_eq_true]
  · rw [if_neg h, beq_eq_false_iff_ne.mpr h, get?]

theorem get?_filter_ne :
    get? (f.filter fun e => e.1 != name) other = if other = name then none else f.get? other := by
  induction f with
  | nil => simp [get?_nil]
  | cons e rest ih =>
    rw [List.filter_cons, get?_cons]
    by_cases he : e.1 = name
    · simp only [he, bne_self_eq_false, Bool.false_eq_true, if_false, ih]
      split <;> rfl
    · simp only [bne_iff_ne.mpr he, if_true, get?_cons, ih]
      by_cases ho : other = name
      · have hne : ¬ name = e.1 := fun h => he h.symm
        simp only [ho, hne, if_false, if_true]
      · simp only [ho, if_false]

/-- One value at a time is replaced. -/
theorem get?_insert : (f.insert name value).get? other = if other = name then some value else f.get? other := by
  rw [insert, get?, List.lookup_append]
  show (get? _ other).or (get? _ other) = _
  rw [get?_filter_ne, get?_cons, get?_nil]
  by_cases h : other = name <;> simp [h]

/-- What is put in last stands, whatever stood there before. -/
theorem get?_foldr_insert (entries : Fields) :
    (entries.foldr (fun e f => f.insert e.1 e.2) f).get? name = (get? entries name).or (f.get? name) := by
  induction entries with
  | nil => rfl
  | cons e rest ih =>
    rw [List.foldr_cons, get?_insert, get?_cons, ih]
    split <;> rfl

variable {f}

/-- Leaving out empty values. -/
theorem get?_filter_nonempty (h : (f.map (·.1)).Nodup) :
    get? (f.filter fun e => e.2 ≠ "") other = (f.get? other).filter (· ≠ "") := by
  induction f with
  | nil => rfl
  | cons e rest ih =>
    rw [List.map_cons, List.nodup_cons] at h
    have hrest := ih h.2
    rw [List.filter_cons, get?_cons]
    by_cases ho : other = e.1
    · -- no later entry has the name
      have hnone : get? rest other = none := by
        rw [get?, List.lookup_eq_none_iff]
        intro x hx
        have hne : e.1 ≠ x.1 := fun heq => h.1 (heq ▸ List.mem_map_of_mem hx)
        simpa [ho] using hne
      by_cases he : e.2 = ""
      · rw [if_neg (by simpa using he), hrest, hnone, if_pos ho, he]
        rfl
      · rw [if_pos (by simpa using he), get?_cons, if_pos ho, if_pos ho, Option.filter_some, if_pos]
        simpa using he
    · by_cases he : e.2 = ""
      · rw [if_neg (by simpa using he), hrest, if_neg ho]
      · rw [if_pos (by simpa using he), get?_cons, if_neg ho, hrest, if_neg ho]

end Fields

open Fields (get?)

/-- What is answered under a name beside what every answer carries. -/
theorem Session.get?_finishFields (s : Session) (f : Fields) {name : String} (hid : name ≠ Header.operationId)
    (hconnection : name ≠ Header.connection) : (s.finishFields f).get? name = f.get? name := by
  rw [finishFields]
  split
  · rw [Fields.get?_insert, if_neg hid]
  · rw [Fields.get?_insert, if_neg hconnection, Fields.get?_insert, if_neg hid]

namespace ObjectRecord

variable (r : ObjectRecord) (order : Metadata.Order)

/-- The names that a record puts values under. -/
def fieldNames : List String :=
  [Header.recordId, Header.site, Header.bucket, Header.name, Header.hash, Header.status, Header.creation,
    Header.expires, Header.size, Header.metadata]

/-- The values of a record under its names, empty ones included. -/
def entries : Fields :=
  [(Header.recordId, r.id), (Header.site, r.site), (Header.bucket, r.bucket), (Header.name, r.name),
    (Header.hash, r.hash.getD ""), (Header.status, r.status.name),
    (Header.creation, (r.creation.map (·.millisText)).getD ""),
    (Header.expires, (r.expires.map (·.millisText)).getD ""), (Header.size, toString r.size),
    (Header.metadata, r.metadata.text order)]

theorem map_fst_entries : (r.entries order).map (·.1) = fieldNames := rfl

theorem get?_toFields (name : String) : (r.toFields order).get? name = ((r.entries order).get? name).filter (· ≠ "") :=
  Fields.get?_filter_nonempty name (show fieldNames.Nodup by decide)

theorem get?_toFields_hash : (r.toFields order).get? Header.hash = r.hash.filter (· ≠ "") := by
  rw [get?_toFields]
  show ((some (r.hash.getD "")).filter (· ≠ "")) = _
  cases r.hash <;> rfl

theorem get?_toFields_size : (r.toFields order).get? Header.size = some (toString r.size) := by
  rw [get?_toFields]
  show ((some (toString r.size)).filter (· ≠ "")) = _
  simp

/-- The names of a record's block are some of its names, each once. -/
theorem map_fst_toFields_sublist : ((r.toFields order).map (·.1)).Sublist fieldNames :=
  r.map_fst_entries order ▸ List.filter_sublist.map _

theorem get?_toFields_of_not_mem {name : String} (h : name ∉ fieldNames) : (r.toFields order).get? name = none := by
  rw [get?, List.lookup_eq_none_iff]
  intro e he
  have hmem : e.1 ∈ fieldNames := (r.map_fst_toFields_sublist order).subset (List.mem_map_of_mem he)
  rw [bne_iff_ne]
  rintro rfl
  exact h hmem

end ObjectRecord

end Depot
