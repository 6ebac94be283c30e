import Depot.Proofs.Header
import Depot.Proofs.Transfer.Watch
import Depot.Proofs.Zstd.Decoding

/-!
# Calls and answers of a transfer

The calls that a transfer makes of its hooks, in their order, and the answers that it makes of what they say.
What the engine says of a transfer replaces what a hook put in its place.

## Main results

* `Session.reported_errorAnswer` — the answer to a transfer that failed.
* `Session.get?_confirmed` — the headers of the answer to an upload.
-/

namespace Depot

/-! ## Calls -/

namespace HookEvent

variable {ω : Type}

/-- Whether the hook refused what it was asked for, or crashed. -/
def failed : HookEvent ω → Bool
  | wantsDigest (.error _) | accept (.error _) | answer _ _ (.error _) | answerFields _ _ (.error _)
  | readable (.error _) | payload (.error _) | payloadFields (.error _) | errorFields _ (.error _) => true
  | _ => false

/-- Whether the hook was asked for the headers of a failed request. -/
def isReport : HookEvent ω → Bool
  | errorFields _ _ => true
  | _ => false

/-- Whether no call of a course failed. -/
def Smooth (calls : List (HookEvent ω)) : Prop := ∀ c ∈ calls, c.failed = false

/-- The calls of a transfer that has not reported anything: nothing was called after a call that failed. -/
structure Underway (calls : List (HookEvent ω)) : Prop where
  smooth : Smooth calls.dropLast
  unreported : ∀ c ∈ calls, c.isReport = false

variable {calls : List (HookEvent ω)} {c : HookEvent ω}

theorem Smooth.snoc (h : Smooth calls) (hc : c.failed = false) : Smooth (calls ++ [c]) := by
  intro d hd
  rcases List.mem_append.mp hd with hd | hd
  · exact h d hd
  · rwa [List.mem_singleton.mp hd]

theorem not_smooth_snoc (hc : c.failed = true) : ¬ Smooth (calls ++ [c]) := fun h => by
  have hlast := h c (List.mem_append_right _ (List.mem_singleton_self c))
  exact Bool.false_ne_true (hlast.symm.trans hc)

theorem smooth_nil : Smooth ([] : List (HookEvent ω)) := by
  intro c hc
  cases hc

theorem underway_nil : Underway ([] : List (HookEvent ω)) := by
  refine ⟨smooth_nil, fun c hc => ?_⟩
  cases hc

/-- One more call, after calls that did not fail. -/
theorem Underway.snoc (h : Underway calls) (hs : Smooth calls) (hc : c.isReport = false) :
    Underway (calls ++ [c]) := by
  refine ⟨by rwa [List.dropLast_concat], fun d hd => ?_⟩
  rcases List.mem_append.mp hd with hd | hd
  · exact h.unreported d hd
  · rwa [List.mem_singleton.mp hd]

end HookEvent

open HookEvent (Smooth Underway smooth_nil underway_nil)

/-- Whether the headers of failed requests are there whenever they are asked for. -/
def Hooks.Reports {ρ ι ω κ : Type} (h : Hooks ρ ι ω κ) : Prop :=
  ∀ input status s w, (h.errorFields input status).wp .any (fun r _ _ => ∀ e, r ≠ .error (.refused e)) s w

/-! ## Answers -/

namespace Session

variable {ρ ι ω κ : Type}

/-- The hash that an upload is answered with: declared, or computed if that was wanted. -/
def hashOf (session : Session) (wanted : Bool) (payload : Bytes) : Option String :=
  session.declaredHash.or (if wanted then some (Base32.encode (Sha256.digest payload)) else none)

/-- What every failed request is answered with under the names that the engine keeps for itself. -/
def reported (session : Session) (moduleName : String) (e : TransferError) : Fields :=
  [(Header.connection, "close"), (Header.moduleName, moduleName), (Header.error, headerSafe e.message),
    (Header.operationId, session.operationId)]

/-- What every upload is answered with under the names that the engine keeps for itself. -/
def confirmed (session : Session) : Fields :=
  (if session.keepAlive then [] else [(Header.connection, "close")]) ++
    [(Header.operationId, session.operationId), (Header.contentType, jsonType)]

/-- The answer to a transfer that failed with `e`, and the calls that led to it. -/
structure Reported (session : Session) (moduleName : String) (e : TransferError) (a : Answer)
    (calls : List (HookEvent ω)) : Prop where
  status : a.status = e.status
  payload : a.payload = .empty
  called : ∃ before fields, calls = before ++ [.errorFields e.status (.ok fields)] ∧ Underway before ∧
    ∀ name, a.fields.get? name = ((session.reported moduleName e).get? name).or (fields.get? name)

theorem get?_errorAnswer (session : Session) (moduleName : String) (e : TransferError) (fields : Fields)
    (name : String) : (session.errorAnswer moduleName e fields).fields.get? name =
      ((session.reported moduleName e).get? name).or (fields.get? name) :=
  Fields.get?_foldr_insert fields name (session.reported moduleName e)

theorem get?_confirmed (session : Session) (fields : Fields) (name : String) :
    (session.finishFields (fields.insert Header.contentType jsonType)).get? name =
      (session.confirmed.get? name).or (fields.get? name) := by
  rw [← Fields.get?_foldr_insert, finishFields, confirmed]
  cases session.keepAlive <;> rfl

theorem reported_errorAnswer (session : Session) (moduleName : String) (e : TransferError) (fields : Fields)
    {before : List (HookEvent ω)} (h : Underway before) : Reported session moduleName e
      (session.errorAnswer moduleName e fields) (before ++ [.errorFields e.status (.ok fields)]) :=
  ⟨rfl, rfl, before, fields, rfl, h, session.get?_errorAnswer moduleName e fields⟩

/-- The calls that come before an upload is admitted. -/
def firstCalls (session : Session) (wanted : Bool) : List (HookEvent ω) :=
  if session.declaredHash.isNone then [.wantsDigest (.ok wanted)] else []

theorem smooth_firstCalls (session : Session) (wanted : Bool) :
    Smooth (session.firstCalls wanted : List (HookEvent ω)) := by
  rw [firstCalls]
  split
  · exact smooth_nil.snoc rfl
  · exact smooth_nil

theorem underway_firstCalls (session : Session) (wanted : Bool) :
    Underway (session.firstCalls wanted : List (HookEvent ω)) := by
  rw [firstCalls]
  split
  · exact underway_nil.snoc smooth_nil rfl
  · exact underway_nil

/-- The answer to an upload whose consumer was given `g`, and the calls that led to it. -/
structure Confirmed (h : Hooks ρ ι ω κ) (session : Session) (body : Source) (g : Heard) (a : Answer)
    (calls : List (HookEvent ω)) : Prop where
  status : a.status = 201
  received : if session.decompressIn then Zstd.Decodes body.bytes g.bytes else g.bytes = body.bytes
  called : ∃ wanted output fields, calls =
      session.firstCalls wanted ++
        [.accept (.ok ()), .answer (session.hashOf wanted g.bytes) g.bytes.length (.ok output),
          .answerFields (session.hashOf wanted g.bytes) g.bytes.length (.ok fields)] ∧
    a.payload = .json (h.answerJson output) ∧
    ∀ name, a.fields.get? name = (session.confirmed.get? name).or (fields.get? name)

end Session

namespace Action

variable {ρ ω α S : Type} {M : Meaning S}

theorem wp_watch {call : Except Trouble α → HookEvent ω} {a : Action ρ α} {s : Journaled ρ ω} {w : S}
    {Q : Except Trouble α → Journaled ρ ω → S → Prop} :
    (a.watch call).wp M Q s w ↔ a.wp M (fun r t w => Q r ⟨t, s.calls ++ [call r]⟩ w) s.own w := by
  have hrun : (a.watch call) s = a s.own >>= fun x => pure (x.1, ⟨x.2, s.calls ++ [call x.1]⟩) := rfl
  simp only [wp, hrun, Program.wp_bind, Program.wp_pure]

end Action

/-- Asking for the headers of a failed request. -/
theorem wp_report {ρ ι ω κ : Type} {h : Hooks ρ ι ω κ} {input : ι} {status : Nat} {s : ρ} {w : Unit}
    {Q : Except Trouble Fields → ρ → Unit → Prop}
    (hQ : ∀ r t w, (h.Reports → ∀ e, r ≠ .error (.refused e)) → Q r t w) :
    (h.errorFields input status).wp .any Q s w := by
  by_cases hreports : h.Reports
  · exact (hreports input status s w).mono fun r t w hr => hQ r t w fun _ => hr
  · exact Action.wp_any_of_forall (fun r t w => hQ r t w fun hr => absurd hr hreports) _ _ _

end Depot
