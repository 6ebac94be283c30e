/-!
# What happened since

Lists in the order of time: whether something happened since the last time that something else did, and what
holds of every entry with regard to those before it.

## Main results

* `since_append` — how a new entry decides.
-/

namespace Depot

variable {α : Type} {p p' q q' : α → Prop} {h : List α} {x : α}

/-- Whether some entry of a list was `p`, and none behind it was `q`. -/
def Since (p q : α → Prop) (h : List α) : Prop :=
  ∃ before x after, h = before ++ x :: after ∧ p x ∧ ∀ y ∈ after, ¬ q y

theorem not_since_nil : ¬ Since p q [] := by
  rintro ⟨before, x, after, h, -⟩
  cases before <;> cases h

theorem since_append : Since p q (h ++ [x]) ↔ p x ∨ Since p q h ∧ ¬ q x := by
  constructor
  · rintro ⟨before, y, after, hsplit, hp, hq⟩
    rcases List.eq_nil_or_concat after with rfl | ⟨after, z, rfl⟩
    · obtain ⟨rfl, hx⟩ := List.append_inj' hsplit rfl
      obtain rfl : x = y := by simpa using hx
      exact .inl hp
    · rw [List.concat_eq_append, ← List.cons_append, ← List.append_assoc] at hsplit
      obtain ⟨rfl, hx⟩ := List.append_inj' hsplit rfl
      obtain rfl : x = z := by simpa using hx
      exact .inr ⟨⟨before, y, after, rfl, hp, fun u hu => hq u (by simp [hu])⟩, hq x (by simp)⟩
  · rintro (hp | ⟨⟨before, y, after, rfl, hp, hq⟩, hx⟩)
    · exact ⟨h, x, [], rfl, hp, by simp⟩
    · refine ⟨before, y, after ++ [x], by simp, hp, fun u hu => ?_⟩
      rcases List.mem_append.mp hu with hu | hu
      · exact hq u hu
      · rwa [List.mem_singleton.mp hu]

/-- The last entry that was `q` is the only one to be found. -/
theorem Since.unique (hp : ∀ x, p x → q x) (hp' : ∀ x, p' x → q x) (h₁ : Since p q h) (h₂ : Since p' q h) :
    ∃ x, p x ∧ p' x := by
  obtain ⟨before, x, after, rfl, hx, hafter⟩ := h₁
  obtain ⟨before', x', after', hsplit, hx', hafter'⟩ := h₂
  rcases List.append_eq_append_iff.mp hsplit with ⟨more, rfl, htail⟩ | ⟨more, rfl, htail⟩
  · cases more with
    | nil =>
      obtain ⟨rfl, -⟩ := List.cons_eq_cons.mp htail
      exact ⟨_, hx, hx'⟩
    | cons y more =>
      obtain ⟨-, rfl⟩ := List.cons_eq_cons.mp htail
      exact absurd (hp' _ hx') (hafter _ (by simp))
  · cases more with
    | nil =>
      obtain ⟨rfl, -⟩ := List.cons_eq_cons.mp htail
      exact ⟨_, hx, hx'⟩
    | cons y more =>
      obtain ⟨-, rfl⟩ := List.cons_eq_cons.mp htail
      exact absurd (hp _ hx) (hafter' _ (by simp))

theorem Since.mono (hp : ∀ x, p x → p' x) (hq : ∀ x, q' x → q x) (hsince : Since p q h) : Since p' q' h := by
  obtain ⟨before, x, after, rfl, hx, hafter⟩ := hsince
  exact ⟨before, x, after, rfl, hp x hx, fun y hy hy' => hafter y hy (hq y hy')⟩

/-- Whether `r` holds of every entry of a list and of those before it, behind others. -/
def Always (r : List α → α → Prop) (before : List α) : List α → Prop
  | [] => True
  | x :: rest => r before x ∧ Always r (before ++ [x]) rest

end Depot
