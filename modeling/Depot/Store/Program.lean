import Depot.Error
import Depot.Store.Call

/-!
# Programs

A program is the course of a request, seen as the calls that it makes one after the other. Between two
calls of one program those of others may come. An action is a program that also has a state of its own, and
may be refused or crash; its state outlives both.
-/

namespace Depot

/-- The course of a request. -/
inductive Program (α : Type) where
  | done (a : α)
  | call (c : Call) (next : Reply c.Answer → Program α)

namespace Program

def bind {α β : Type} (t : Program α) (f : α → Program β) : Program β :=
  match t with
  | done a => f a
  | call c next => call c fun r => (next r).bind f

instance : Monad Program where
  pure := done
  bind := bind

def ofCall (c : Call) : Program (Reply c.Answer) := call c done

/-- Run a program, `perform` answering its calls. -/
def run {α σ : Type} (perform : (c : Call) → σ → Reply c.Answer × σ) : Program α → σ → α × σ
  | done a, s => (a, s)
  | call c next, s =>
    let (r, s) := perform c s
    (next r).run perform s

end Program

/-- Why an action does not come to its end. -/
inductive Trouble where
  | refused (e : TransferError)
  | crashed (message : String)
  deriving DecidableEq, Repr

/-- A program with a state of its own, which may be refused or crash. -/
abbrev Action (ρ α : Type) := ExceptT Trouble (StateT ρ Program) α

namespace Action

def refuse {ρ α : Type} (e : TransferError) : Action ρ α := throw (.refused e)

def crash {ρ α : Type} (message : String) : Action ρ α := throw (.crashed message)

def ofExcept {ρ α : Type} : Except TransferError α → Action ρ α
  | .ok a => return a
  | .error e => refuse e

def ofProgram {ρ α : Type} (t : Program α) : Action ρ α := ExceptT.lift (StateT.lift t)

/-- Make a call and go on whether it fails or not. -/
def attempt {ρ : Type} (c : Call) : Action ρ (Except StoreError c.Answer) := do
  match ← ofProgram (Program.ofCall c) with
  | .ok a => return .ok a
  | .failed e => return .error e
  | .crashed m => crash m

/-- Make a call; its failure is an internal error. -/
def call {ρ : Type} (c : Call) : Action ρ c.Answer := do
  match ← attempt c with
  | .ok a => return a
  | .error e => refuse (.internal e.message)

/-- Run an action on a part of a larger state. -/
def zoom {ρ σ α : Type} (get : σ → ρ) (put : ρ → σ → σ) (a : Action ρ α) : Action σ α :=
  fun s => do
    let (r, t) ← a (get s)
    return (r, put t s)

def start {ρ α : Type} (a : Action ρ α) (s : ρ) : Program (Except Trouble α × ρ) := a s

end Action

end Depot
