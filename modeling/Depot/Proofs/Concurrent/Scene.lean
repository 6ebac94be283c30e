import Depot.Proofs.Store.Ledger
import Mathlib.Logic.Function.Basic

/-!
# Scenes

Requests that run beside each other on one store. A schedule says whose turn it is, and each step is a
single call of a single request; a log keeps the calls that were made.

A protocol says of a request which calls it may make, depending on how far it got, and how far each reply
gets it. What the calls of the requests preserve if each follows its protocol holds at the end of every
schedule.

## Main results

* `Scene.run_induction` — what holds at the end of a schedule.
-/

namespace Depot

namespace Program

variable {α : Type}

/-- The result of a program that has come to its end. -/
def result? : Program α → Option α
  | done a => some a
  | call _ _ => none

/-- The call that a program makes next. -/
def call? : Program α → Option Call
  | done _ => none
  | call c _ => some c

end Program

/-- A call that was made, and by whom. -/
structure Made (ι : Type) where
  task : ι
  call : Call
  reply : Reply call.Answer

/-- Requests that run beside each other. -/
structure Scene (ι σ α : Type) where
  tasks : ι → Program α
  store : σ
  log : List (Made ι) := []

/-- Which calls a request may make, and how far the replies get it. -/
structure Protocol (φ : Type) where
  Permits : φ → Call → Prop
  next : φ → (c : Call) → Reply c.Answer → φ

/-- What a call means for a request that follows a protocol. -/
def Protocol.meaning {φ : Type} (P : Protocol φ) : Meaning φ where
  pre c K p := P.Permits p c ∧ ∀ r, K r (P.next p c r)
  mono h hpre := ⟨hpre.1, fun r => h r _ (hpre.2 r)⟩

namespace Scene

variable {ι σ α φ : Type} [DecidableEq ι] (perform : (c : Call) → σ → Reply c.Answer × σ)

/-- The next call of a request, if it has not come to its end. -/
def step (i : ι) (x : Scene ι σ α) : Scene ι σ α :=
  match x.tasks i with
  | .done _ => x
  | .call c next =>
    let (r, s) := perform c x.store
    { tasks := Function.update x.tasks i (next r), store := s, log := x.log ++ [⟨i, c, r⟩] }

/-- One call after the other, as a schedule says. -/
def run : List ι → Scene ι σ α → Scene ι σ α
  | [], x => x
  | i :: rest, x => run rest (x.step perform i)

/-- Whether every call of a schedule is made on a store where that is `ok`. -/
def Along (ok : σ → Call → Prop) : List ι → Scene ι σ α → Prop
  | [], _ => True
  | i :: rest, x => (∀ c ∈ (x.tasks i).call?, ok x.store c) ∧ Along ok rest (x.step perform i)

instance decidableAlong (ok : σ → Call → Prop) [∀ s c, Decidable (ok s c)] :
    (schedule : List ι) → (x : Scene ι σ α) → Decidable (x.Along perform ok schedule)
  | [], _ => isTrue trivial
  | i :: rest, x =>
    have := decidableAlong ok rest (x.step perform i)
    inferInstanceAs (Decidable ((∀ c ∈ (x.tasks i).call?, ok x.store c) ∧
      Along perform ok rest (x.step perform i)))

theorem along_true (schedule : List ι) (x : Scene ι σ α) : x.Along perform (fun _ _ => True) schedule := by
  induction schedule generalizing x with
  | nil => trivial
  | cons i rest ih => exact ⟨fun _ _ => trivial, ih _⟩

/-- Whether all requests have come to their ends. -/
def Over (x : Scene ι σ α) : Prop := ∀ i, (x.tasks i).result?.isSome = true

instance decidableOver {n : Nat} (x : Scene (Fin n) σ α) : Decidable x.Over :=
  inferInstanceAs (Decidable (∀ i, (x.tasks i).result?.isSome = true))

/-- Whether each request follows its protocol from where it got, until `Q` holds at its end. -/
def Follows (P : ι → Protocol φ) (Q : ι → α → φ → Prop) (x : Scene ι σ α) (p : ι → φ) : Prop :=
  ∀ i, (x.tasks i).wp (P i).meaning (Q i) (p i)

variable {perform} {P : ι → Protocol φ} {Q : ι → α → φ → Prop} {x : Scene ι σ α} {p : ι → φ}

theorem step_of_call {i : ι} {c : Call} {next : Reply c.Answer → Program α} (h : x.tasks i = .call c next) :
    x.step perform i =
      { tasks := Function.update x.tasks i (next (perform c x.store).1)
        store := (perform c x.store).2
        log := x.log ++ [⟨i, c, (perform c x.store).1⟩] } := by
  rw [step, h]

theorem step_of_done {i : ι} {a : α} (h : x.tasks i = .done a) : x.step perform i = x := by
  rw [step, h]

omit [DecidableEq ι] in
theorem Over.done (h : x.Over) (i : ι) : ∃ r, x.tasks i = .done r ∧ (x.tasks i).result? = some r := by
  cases hx : x.tasks i with
  | done r => exact ⟨r, rfl, rfl⟩
  | call c next =>
    have hi := h i
    rw [hx] at hi
    cases hi

omit [DecidableEq ι] in
/-- A request that has come to its end. -/
theorem Follows.of_done (h : x.Follows P Q p) {i : ι} {a : α} (hi : (x.tasks i).result? = some a) :
    Q i a (p i) := by
  have hw := h i
  cases ht : x.tasks i with
  | done b =>
    rw [ht] at hi hw
    cases hi
    exact hw
  | call c next =>
    rw [ht] at hi
    cases hi

omit [DecidableEq ι] in
/-- The next call of a request. -/
theorem Follows.permits (h : x.Follows P Q p) {i : ι} {c : Call} (hi : (x.tasks i).call? = some c) :
    (P i).Permits (p i) c := by
  have hw := h i
  cases ht : x.tasks i with
  | done b =>
    rw [ht] at hi
    cases hi
  | call c' next =>
    rw [ht] at hi hw
    cases hi
    exact hw.1

theorem Follows.step (h : x.Follows P Q p) {i : ι} {c : Call} {next : Reply c.Answer → Program α}
    (hi : x.tasks i = .call c next) :
    (x.step perform i).Follows P Q (Function.update p i ((P i).next (p i) c (perform c x.store).1)) := by
  intro j
  rw [step_of_call hi]
  by_cases hj : j = i
  · subst hj
    have hw := h j
    rw [hi] at hw
    simpa using hw.2 _
  · simpa [hj] using h j

/-- What the calls of all requests preserve holds at the end of every schedule. -/
theorem run_induction {T : Terms} (R : Registry T perform) {ok : σ → Call → Prop}
    (Inv : (ι → φ) → Ledger → List (Made ι) → Prop)
    (hstep : ∀ {p : ι → φ} {s : σ} {y : Ledger} {log : List (Made ι)} {i : ι} {c : Call} {a : Reply c.Answer},
      R.Sound s → ok s c → Inv p (R.ledger s) log → (P i).Permits (p i) c → (R.ledger s).Allows T c a y →
      Inv (Function.update p i ((P i).next (p i) c a)) y (log ++ [⟨i, c, a⟩]))
    {schedule : List ι} (hs : R.Sound x.store) (hx : x.Follows P Q p) (hinv : Inv p (R.ledger x.store) x.log)
    (hok : x.Along perform ok schedule) :
    R.Sound (x.run perform schedule).store ∧ ∃ q, (x.run perform schedule).Follows P Q q ∧
      Inv q (R.ledger (x.run perform schedule).store) (x.run perform schedule).log := by
  induction schedule generalizing x p with
  | nil => exact ⟨hs, p, hx, hinv⟩
  | cons i rest ih =>
    rw [run]
    cases hi : x.tasks i with
    | done a => exact ih (by rwa [step_of_done hi]) (by rwa [step_of_done hi]) (by rwa [step_of_done hi]) hok.2
    | call c next =>
      have hcall : (x.tasks i).call? = some c := by rw [hi]; rfl
      refine ih ?_ (hx.step hi) ?_ hok.2
      · rw [step_of_call hi]
        exact R.sound c _ hs
      · rw [step_of_call hi]
        exact hstep hs (hok.1 c hcall) hinv (hx.permits hcall) (R.allows c _ hs)

end Scene

end Depot
