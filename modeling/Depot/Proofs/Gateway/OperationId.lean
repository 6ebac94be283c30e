import Depot.Gateway.Flight
import Depot.Proofs.Base32
import Depot.Proofs.Segment
import Depot.Proofs.Store.Program
import Depot.Store

/-!
# Operation ids

Every answer to a request for buckets and objects states one operation id: that of the request, or a new one.
It is stated as it was given, unless the request is refused outside of a transfer; a refusal has a question
mark in place of every tab.

## Main results

* `Upload.wp_conclude_signed`, `Download.wp_pull_signed` — the answers of transfers.
* `Exchange.wp_serve` — the answer to any request, or the session of an upload that goes on.
* `Flight.echoes` — the answer to any request, however its payload arrives.
-/

namespace Depot

open Depot.Action

/-! ## Transfers -/

/-- Whether an answer states an operation id on the wire. -/
def Answer.Signed (id : String) (a : Answer) : Prop := a.fields.sent? Header.operationId = some id

/-- Whether every answer of an ending states an operation id on the wire. -/
def Ending.Signed (id : String) (e : Ending) : Prop := ∀ a, e.answer? = some a → a.Signed id

/-- Whether a resource can always tell the headers of a failed request. -/
def Hooks.Steady {ρ ι ω κ : Type} (h : Hooks ρ ι ω κ) : Prop :=
  ∀ input status s, ∃ f t, (h.errorFields input status).start s = .done (.ok f, t)

theorem Hooks.Steady.wp {ρ ι ω κ S : Type} {h : Hooks ρ ι ω κ} (hsteady : h.Steady) {M : Meaning S}
    {Q : Except Trouble Fields → ρ → S → Prop} {input : ι} {status : Nat} {s : ρ} {w : S}
    (hQ : ∀ f t, Q (.ok f) t w) : (h.errorFields input status).wp M Q s w := by
  obtain ⟨f, t, hrun⟩ := hsteady input status s
  rw [Action.wp, show h.errorFields input status s = _ from hrun]
  exact hQ f t

section Sessions

variable (s : Session) (hid : Fields.validValue s.operationId = true)

include hid

theorem Session.sent?_finishFields (f : Fields) :
    (s.finishFields f).sent? Header.operationId = some s.operationId := by
  have hsent : (f.insert Header.operationId s.operationId).sent? Header.operationId = some s.operationId :=
    Fields.sent?_insert_self (by decide) hid (by decide)
  rw [finishFields]
  split
  · exact hsent
  · rw [Fields.sent?_insert_of_ne (by decide), hsent]

theorem Session.signed_errorAnswer (moduleName : String) (e : TransferError) (f : Fields) :
    (s.errorAnswer moduleName e f).Signed s.operationId := by
  rw [Answer.Signed, errorAnswer, Fields.sent?_insert_of_ne (by decide), Fields.sent?_insert_of_ne (by decide),
    Fields.sent?_insert_of_ne (by decide)]
  exact Fields.sent?_insert_self (by decide) hid (by decide)

end Sessions

theorem Ending.signed_crashed (id message : String) : (crashed message).Signed id := by
  intro a ha
  cases ha

theorem Ending.Signed.andThen {id : String} {e : Ending} (h : e.Signed id) (r : Except Trouble Unit) :
    (e.andThen r).Signed id := by
  rcases r with (refusal | message) | _
  · exact h
  · exact Ending.signed_crashed id message
  · exact h

section Transfers

variable {ρ ι ω κ : Type} {h : Hooks ρ ι ω κ} {settings : Settings} {session : Session} {input : ι}

namespace Upload

/-- The answer to an upload that was consumed states the operation id. -/
theorem wp_complete_signed (hid : Fields.validValue session.operationId = true) (u : Upload ρ κ) (w : Unit) :
    (complete h settings session input).wp .any
      (fun r _ _ => ∀ a, r = .ok a → a.Signed session.operationId) u w := by
  simp only [complete, wp_bind, wp_get, setStream, wp_modify]
  refine wp_any_of_forall (fun size u w => ?_) _ _ _
  cases size with
  | error t => simp
  | ok size =>
    refine wp_any_of_forall (fun hash u w => ?_) _ _ _
    cases hash with
    | error t => simp
    | ok hash =>
      simp only [respond, wp_bind]
      refine wp_any_of_forall (fun output u w => ?_) _ _ _
      cases output with
      | error t => simp
      | ok output =>
        refine wp_any_of_forall (fun fields u w => ?_) _ _ _
        cases fields with
        | error t => simp
        | ok fields =>
          simp only [wp_pure]
          rintro a ha
          obtain rfl := Except.ok.inj ha
          exact session.sent?_finishFields hid _

/-- Whatever an upload comes to, its answer states the operation id. -/
theorem wp_finish_signed (hsteady : h.Steady) (hid : Fields.validValue session.operationId = true)
    {r : Except Trouble Answer × Upload ρ κ} (hr : ∀ a, r.1 = .ok a → a.Signed session.operationId) (w : Unit) :
    (finish h settings session input r).wp .any (fun x _ => x.1.Signed session.operationId) w := by
  obtain ⟨(e | message) | a, u⟩ := r
  · simp only [finish, fail, hook, Program.wp_bind, wp_start, wp_bind, wp_modify, wp_zoom]
    refine hsteady.wp fun f t => ?_
    simp only [wp_pure, Program.wp_pure]
    refine wp_any_of_forall (fun released _ _ => Ending.Signed.andThen ?_ released) _ _ _
    intro b hb
    obtain rfl := Option.some.inj hb
    exact session.signed_errorAnswer hid _ _ _
  · simp only [finish, hook, Program.wp_bind, Program.wp_pure, wp_start, wp_zoom]
    exact wp_any_of_forall (fun released _ _ => (Ending.signed_crashed _ _).andThen released) _ _ _
  · simp only [finish, hook, Program.wp_bind, Program.wp_pure, wp_start, wp_zoom]
    refine wp_any_of_forall (fun released _ _ => Ending.Signed.andThen ?_ released) _ _ _
    intro b hb
    obtain rfl := Option.some.inj hb
    exact hr _ rfl

theorem wp_conclude_signed (hsteady : h.Steady) (hid : Fields.validValue session.operationId = true)
    (u : Upload ρ κ) (w : Unit) :
    (conclude h settings session input u).wp .any (fun x _ => x.1.Signed session.operationId) w := by
  simp only [conclude, Program.wp_bind, wp_start]
  exact (wp_complete_signed hid u w).mono fun r u w hr => wp_finish_signed hsteady hid hr w

/-- The ending of an upload that has one states the operation id. -/
def EndsSigned (id : String) (x : Option Ending × Upload ρ κ) : Prop := ∀ e, x.1 = some e → e.Signed id

theorem endsSigned_none (id : String) (u : Upload ρ κ) : EndsSigned id (none, u) := by
  intro e he
  cases he

theorem wp_ended {id : String} {p : Program (Ending × Upload ρ κ)} {w : Unit}
    (hp : p.wp .any (fun x _ => x.1.Signed id) w) :
    (p >>= fun x => pure (some x.1, x.2)).wp .any (fun x _ => EndsSigned id x) w := by
  simp only [Program.wp_bind, Program.wp_pure]
  refine hp.mono fun x w hx => ?_
  rintro e he
  obtain rfl := Option.some.inj he
  exact hx

theorem wp_begin'_signed (hsteady : h.Steady) (hid : Fields.validValue session.operationId = true)
    (resource : ρ) (body : Source) (w : Unit) :
    (begin' h settings session input resource body).wp .any
      (fun x _ => EndsSigned session.operationId x) w := by
  rw [begin']
  split
  · rw [Program.wp_bind, wp_start]
    refine wp_any_of_forall (fun r u w => ?_) _ _ _
    cases r with
    | error t => exact wp_ended (wp_finish_signed hsteady hid (by simp) w)
    | ok a =>
      dsimp only
      split
      · split
        · exact endsSigned_none _ _
        · exact wp_ended (wp_conclude_signed hsteady hid _ w)
      · exact wp_ended (wp_conclude_signed hsteady hid _ w)
  · exact wp_ended (wp_finish_signed hsteady hid (by simp) w)

theorem wp_advance_signed (hsteady : h.Steady) (hid : Fields.validValue session.operationId = true)
    (u : Upload ρ κ) (w : Unit) :
    (advance h settings session input u).wp .any (fun x _ => EndsSigned session.operationId x) w := by
  rw [advance]
  split
  · exact endsSigned_none _ _
  · rw [Program.wp_bind]
    refine Program.wp_any_of_forall (fun handover w => ?_) _ _
    dsimp only
    split
    · exact endsSigned_none _ _
    · exact wp_ended (wp_conclude_signed hsteady hid _ w)

end Upload

namespace Download

/-- The answer with a payload states the operation id. -/
theorem wp_streamOut_signed (hid : Fields.validValue session.operationId = true) (s : ρ) (w : Unit) :
    (streamOut h session input).wp .any
      (fun r _ _ => ∀ a, r = .ok a → a.Signed session.operationId) s w := by
  rw [streamOut]
  split
  · simp only [wp_bind, wp_refuse]
    simp
  · simp only [wp_bind]
    refine wp_any_of_forall (fun source s w => ?_) _ _ _
    cases source with
    | error t => simp
    | ok source =>
      refine wp_any_of_forall (fun fields s w => ?_) _ _ _
      cases fields with
      | error t => simp
      | ok fields =>
        dsimp only
        split
        · simp
        · simp only [wp_pure]
          rintro a ha
          obtain rfl := Except.ok.inj ha
          exact session.sent?_finishFields hid _

/-- Whatever a download comes to, its answer states the operation id. -/
theorem wp_finish_signed (hsteady : h.Steady) (hid : Fields.validValue session.operationId = true)
    {r : Except Trouble Answer × ρ} (hr : ∀ a, r.1 = .ok a → a.Signed session.operationId) (w : Unit) :
    (finish h settings session input r).wp .any (fun x _ => x.1.Signed session.operationId) w := by
  obtain ⟨(e | message) | a, s⟩ := r
  · simp only [finish, Program.wp_bind, wp_start]
    refine hsteady.wp fun f t => ?_
    simp only [Program.wp_pure]
    refine wp_any_of_forall (fun released _ _ => Ending.Signed.andThen ?_ released) _ _ _
    intro b hb
    obtain rfl := Option.some.inj hb
    exact session.signed_errorAnswer hid _ _ _
  · simp only [finish, Program.wp_bind, Program.wp_pure, wp_start]
    exact wp_any_of_forall (fun released _ _ => (Ending.signed_crashed _ _).andThen released) _ _ _
  · simp only [finish, Program.wp_bind, Program.wp_pure, wp_start]
    refine wp_any_of_forall (fun released _ _ => Ending.Signed.andThen ?_ released) _ _ _
    intro b hb
    obtain rfl := Option.some.inj hb
    exact hr _ rfl

theorem wp_pull_signed (hsteady : h.Steady) (hid : Fields.validValue session.operationId = true)
    (request : Headers) (resource : ρ) (w : Unit) :
    (pull h settings session input request resource).wp .any
      (fun x _ => x.1.Signed session.operationId) w := by
  simp only [pull, Program.wp_bind, wp_start, wp_bind]
  refine wp_any_of_forall (fun there s w => ?_) _ _ _
  cases there with
  | error t => exact wp_finish_signed hsteady hid (by simp) w
  | ok there =>
    cases there with
    | false => exact wp_finish_signed hsteady hid (by simp) w
    | true => exact (wp_streamOut_signed hid s w).mono fun r s w hr => wp_finish_signed hsteady hid hr w

theorem wp_pullList_signed (hsteady : h.Steady) (hid : Fields.validValue session.operationId = true)
    (resource : ρ) (w : Unit) :
    (pullList h settings session input resource).wp .any (fun x _ => x.1.Signed session.operationId) w := by
  simp only [pullList, Program.wp_bind, wp_start]
  exact (wp_streamOut_signed hid resource w).mono fun r s w hr => wp_finish_signed hsteady hid hr w

end Download

end Transfers

/-! ### The resources -/

theorem ObjectResource.steady_hooks (c : Context) (write : String → Consumer Written) : (hooks c write).Steady :=
  fun _ _ _ => ⟨_, _, rfl⟩

theorem RemoteResource.steady_hooks (c : Context) (order : Metadata.Order) : (hooks c order).Steady :=
  fun _ _ _ => ⟨_, _, rfl⟩

theorem ListingResource.steady_hooks : hooks.Steady := fun _ _ _ => ⟨_, _, rfl⟩

/-! ## Requests -/

/-- Whether the answer that an exchange has is of some kind, or else its upload goes on with some session. -/
def Stage.Keeps (P : Answer → Prop) (s : Session) : Stage → Prop
  | .answered o => P o.answer
  | .uploading u => u.session = s

namespace Exchange

variable (x : Exchange)

theorem operationId_session (direction : Direction) : (x.session direction).operationId = x.operationId := by
  cases direction <;> rfl

/-- Whether an answer states the operation id of a request, or refuses the request outside of a transfer. -/
def Echoes (a : Answer) : Prop :=
  a.fields.values Header.operationId = [x.operationId] ∨ ∃ e, a = x.reject e

/-- Whether a request is for buckets or objects, by a method that they take, and its path can be decoded. -/
def Reaches : Prop :=
  ∃ encoded route, Route.ofPath? (Route.pathOf x.request.target) = some encoded ∧
    x.request.method ∈ encoded.methods ∧ encoded.decode = .ok route ∧ route ≠ .health ∧ route ≠ .metrics

/-- Whether an answer is one to a request that is refused outside of a transfer. -/
def IsRefusal (a : Answer) : Prop := ∃ e, a = x.finish (x.reject e)

/-- Whether a finished answer states the operation id of a request, or refuses it outside of a transfer. -/
def Echoed (a : Answer) : Prop :=
  a.fields.values Header.operationId = [x.operationId] ∨ x.IsRefusal a

variable {x}

theorem wp_answerWith {α : Type} {a : Action Unit α} {f : α → Answer} (hf : ∀ v, x.Echoes (f v)) (w : Unit) :
    (x.answerWith a f).wp .any (fun a _ => x.Echoes a) w := by
  simp only [answerWith, Program.wp_bind, wp_start]
  refine wp_any_of_forall (fun r _ w => ?_) _ _ _
  rcases r with (e | message) | v
  · exact .inr ⟨_, rfl⟩
  · exact .inr ⟨_, rfl⟩
  · exact hf v

theorem echoes_outcomeOf {kind : TransferKind} {direction : Direction} {received : Nat} {e : Ending}
    (he : e.Signed x.operationId) :
    x.Echoes (x.outcomeOf kind (x.session direction) received e).answer := by
  have hwire (a : Answer) (ha : e.answer? = some a) :
      a.onWire.fields.values Header.operationId = [x.operationId] := by
    have hsent : a.fields.sent? Header.operationId = some x.operationId := he a ha
    rw [Answer.onWire, Fields.values_onWire, hsent]
    rfl
  cases e with
  | answered a => exact .inl (hwire a rfl)
  | failed _ a => exact .inl (hwire a rfl)
  | crashed message =>
    refine .inr ⟨.internal s!"transfer worker failed: {workerCrash x.fresh.worker message}", ?_⟩
    rw [outcomeOf, Ending.toAnswer, operationId_session]
    rfl

variable (hid : Fields.validValue x.operationId = true)

include hid

theorem wp_download {ρ ι ω κ : Type} {h : Hooks ρ ι ω κ} (hsteady : h.Steady) (input : ι) (resource : ρ)
    (w : Unit) : (x.download h input resource).wp .any (fun o _ => x.Echoes o.answer) w := by
  have hid' := hid
  rw [← x.operationId_session .download] at hid'
  simp only [download, Program.wp_bind, Program.wp_pure]
  refine (Download.wp_pull_signed hsteady hid' _ _ w).mono fun e w he => echoes_outcomeOf ?_
  rwa [operationId_session] at he

theorem wp_listObjects (bucket : String) (w : Unit) :
    (x.listObjects bucket).wp .any (fun o _ => x.Echoes o.answer) w := by
  have hid' := hid
  rw [← x.operationId_session .download] at hid'
  simp only [listObjects, Program.wp_bind, Program.wp_pure]
  refine (Download.wp_pullList_signed ListingResource.steady_hooks hid' () w).mono fun e w he => echoes_outcomeOf ?_
  rwa [operationId_session] at he

omit hid in
theorem wp_uploadStage {u : OpenUpload} (hu : u.session = x.session .upload)
    {r : Option Ending × Upload ObjectResource.State ObjectResource.Written}
    (hr : Upload.EndsSigned x.operationId r) (w : Unit) :
    (x.uploadStage u r).wp .any (fun stage _ => stage.Keeps x.Echoes (x.session .upload)) w := by
  obtain ⟨_ | e, upload⟩ := r
  · exact hu
  · simp only [uploadStage, Program.wp_bind, Program.wp_pure]
    refine Program.wp_any_of_forall (fun upload w => ?_) _ _
    rw [hu]
    exact echoes_outcomeOf (hr e rfl)

theorem wp_createObject (k : Key) (w : Unit) :
    (x.createObject k).wp .any (fun stage _ => stage.Keeps x.Echoes (x.session .upload)) w := by
  have hid' := hid
  rw [← x.operationId_session .upload] at hid'
  simp only [createObject, Program.wp_bind]
  refine (Upload.wp_begin'_signed (ObjectResource.steady_hooks _ _) hid' _ _ w).mono fun r w hr => ?_
  rw [operationId_session] at hr
  exact wp_uploadStage rfl hr w

omit hid in
theorem wp_serveBucket (bucket : String) (w : Unit) :
    (x.serveBucket bucket).wp .any (fun a _ => x.Echoes a) w := by
  rw [serveBucket]
  split
  · exact wp_answerWith (fun r => .inl rfl) w
  · split
    · exact .inr ⟨_, rfl⟩
    · split
      · exact wp_answerWith (fun b => .inl rfl) w
      · exact wp_answerWith (fun b => .inl rfl) w
      · exact wp_answerWith (fun b => .inl rfl) w

theorem wp_serveObject (k : Key) (w : Unit) :
    (x.serveObject k).wp .any (fun stage _ => stage.Keeps x.Echoes (x.session .upload)) w := by
  rw [serveObject]
  split
  · exact wp_createObject hid k w
  · simp only [Program.wp_bind, Program.wp_pure]
    exact wp_answerWith (fun kind => .inl rfl) w
  · simp only [Program.wp_bind, Program.wp_pure]
    exact wp_answerWith (fun r => .inl rfl) w
  · simp only [Program.wp_bind, Program.wp_pure, readObject]
    split
    · simp only [Program.wp_bind, Program.wp_pure]
      exact wp_answerWith (fun r => .inl rfl) w
    · exact wp_download hid (ObjectResource.steady_hooks _ _) k {} w

/-- The answer to a request for buckets or objects, or the session of an upload that goes on. -/
theorem wp_serve {route : Route} (hhealth : route ≠ .health) (hmetrics : route ≠ .metrics) (w : Unit) :
    (x.serve route).wp .any (fun stage _ => stage.Keeps x.Echoes (x.session .upload)) w := by
  unfold serve
  cases route with
  | health => exact absurd rfl hhealth
  | metrics => exact absurd rfl hmetrics
  | buckets =>
    simp only [Program.wp_bind, Program.wp_pure]
    exact wp_answerWith (fun l => .inl rfl) w
  | bucket b =>
    simp only [Program.wp_bind, Program.wp_pure]
    exact wp_serveBucket b w
  | objects b =>
    dsimp only
    split
    · exact .inr ⟨_, rfl⟩
    · simp only [Program.wp_bind, Program.wp_pure]
      exact wp_listObjects hid b w
  | object b n =>
    dsimp only
    split
    · exact .inr ⟨_, rfl⟩
    · exact wp_serveObject hid _ w
  | replica b n =>
    dsimp only
    split
    · exact .inr ⟨_, rfl⟩
    · simp only [Program.wp_bind, Program.wp_pure]
      exact wp_download hid (RemoteResource.steady_hooks _ _) _ _ w

omit hid in
theorem Echoes.finish {a : Answer} (h : x.Echoes a) : x.Echoed (x.finish a) := by
  rcases h with hvalues | ⟨e, rfl⟩
  · refine .inl ?_
    rw [Exchange.finish, Fields.values_insert, if_neg (by decide), Fields.values_insert, if_neg (by decide), hvalues]
  · exact .inr ⟨e, rfl⟩

omit hid in
theorem finishStage_keeps {stage : Stage} (h : stage.Keeps x.Echoes (x.session .upload)) :
    (x.finishStage stage).Keeps x.Echoed (x.session .upload) := by
  cases stage with
  | answered o => exact Echoes.finish h
  | uploading u => exact h

-- Steps that look at the program of a request are not to route it.
attribute [local irreducible] Route.ofPath?

omit hid in
theorem start_of_reaches (hroute : x.Reaches) :
    ∃ route, route ≠ .health ∧ route ≠ .metrics ∧ x.start = do return x.finishStage (← x.serve route) := by
  obtain ⟨encoded, route, hpath, hmethod, hdecode, hhealth, hmetrics⟩ := hroute
  have hallowed : encoded.methods.contains x.request.method = true := by simpa using hmethod
  refine ⟨route, hhealth, hmetrics, ?_⟩
  simp only [start, hpath, hallowed, hdecode, Bool.not_true, Bool.false_eq_true, if_false]

theorem wp_start_keeps (hroute : x.Reaches) (w : Unit) :
    x.start.wp .any (fun stage _ => stage.Keeps x.Echoed (x.session .upload)) w := by
  obtain ⟨route, hhealth, hmetrics, hserved⟩ := start_of_reaches hroute
  rw [hserved, Program.wp_bind]
  exact (wp_serve hid hhealth hmetrics w).mono fun stage w h => finishStage_keeps h

theorem wp_arrive {u : OpenUpload} (hu : u.session = x.session .upload) (piece : Option Source.Piece) (w : Unit) :
    (x.arrive u piece).wp .any (fun stage _ => stage.Keeps x.Echoed (x.session .upload)) w := by
  have hid' := hid
  rw [← x.operationId_session .upload, ← hu] at hid'
  simp only [arrive, Program.wp_bind, Program.wp_pure]
  refine (Upload.wp_advance_signed (ObjectResource.steady_hooks _ _) hid' _ w).mono fun r w hr => ?_
  have hr' : Upload.EndsSigned x.operationId r := by
    rwa [hu, operationId_session] at hr
  exact (wp_uploadStage (u := u.extend piece) hu hr' w).mono fun stage w h => finishStage_keeps h

theorem wp_expire {u : OpenUpload} (hu : u.session = x.session .upload) (w : Unit) :
    (x.expire u).wp .any (fun r _ => x.Echoed r.1.answer) w := by
  have hid' := hid
  rw [← x.operationId_session .upload, ← hu] at hid'
  simp only [expire, Program.wp_bind, Program.wp_pure]
  refine (Upload.wp_conclude_signed (ObjectResource.steady_hooks _ _) hid' _ w).mono fun r w hr => ?_
  refine Program.wp_any_of_forall (fun upload w => Echoes.finish ?_) _ _
  rw [hu, operationId_session] at hr
  rw [hu]
  exact echoes_outcomeOf hr

end Exchange

/-! ### However a payload arrives -/

namespace Flight

attribute [local irreducible] Route.ofPath?

/-- What happens to a request in flight: a piece of its payload arrives, or the end of it, or time passes. -/
inductive Occurrence where
  | arrival (piece : Option Source.Piece)
  | time (ms : Nat)

def occur (f : Flight) : Occurrence → Program Flight
  | .arrival piece => f.arrive piece
  | .time ms => f.elapse ms

def occurAll (f : Flight) : List Occurrence → Program Flight
  | [] => return f
  | o :: rest => do (← f.occur o).occurAll rest

/-- The outcome of a request, and all that happens before it. -/
def course (x : Exchange) (occurrences : List Occurrence) : Program Outcome := do
  let f ← begin' x
  (← f.occurAll occurrences).outcome

/-- Whether a flight of a request has an answer that states its operation id, or goes on with its session. -/
def Stands (x : Exchange) (f : Flight) : Prop := f.exchange = x ∧ f.stage.Keeps x.Echoed (x.session .upload)

variable {x : Exchange} {f : Flight} (hid : Fields.validValue x.operationId = true)

include hid

theorem wp_occur (h : f.Stands x) (o : Occurrence) (w : Unit) : (f.occur o).wp .any (fun f _ => f.Stands x) w := by
  obtain ⟨rfl, hstage⟩ := h
  cases o with
  | arrival piece =>
    simp only [occur, arrive]
    split
    · rename_i u _ hu
      rw [hu] at hstage
      simp only [Program.wp_bind, Program.wp_pure]
      exact (Exchange.wp_arrive hid hstage piece w).mono fun stage w h => ⟨rfl, h⟩
    · exact ⟨rfl, hstage⟩
    · simp only [Program.wp_bind, Program.wp_pure]
      exact Program.wp_any_of_forall (fun _ _ => ⟨rfl, hstage⟩) _ _
  | time ms =>
    simp only [occur, elapse]
    split
    · exact ⟨rfl, hstage⟩
    · rename_i u hu
      rw [hu] at hstage
      split
      · simp only [Program.wp_bind, Program.wp_pure]
        exact (Exchange.wp_expire hid hstage w).mono fun r w h => ⟨rfl, h⟩
      · exact ⟨rfl, hstage⟩

theorem wp_occurAll (h : f.Stands x) (occurrences : List Occurrence) (w : Unit) :
    (f.occurAll occurrences).wp .any (fun f _ => f.Stands x) w := by
  induction occurrences generalizing f w with
  | nil => exact h
  | cons o rest ih =>
    simp only [occurAll, Program.wp_bind]
    exact (wp_occur hid h o w).mono fun f w h => ih h w

theorem wp_outcome (h : f.Stands x) (w : Unit) : f.outcome.wp .any (fun o _ => x.Echoed o.answer) w := by
  obtain ⟨rfl, hstage⟩ := h
  rw [outcome]
  split
  · rename_i u hu
    rw [hu] at hstage
    simp only [Exchange.conclude, Program.wp_bind, Program.wp_pure]
    exact Exchange.wp_expire hid hstage w
  · rename_i o ho
    rw [ho] at hstage
    exact hstage

theorem wp_course (hroute : x.Reaches) (occurrences : List Occurrence) (w : Unit) :
    (course x occurrences).wp .any (fun o _ => x.Echoed o.answer) w := by
  simp only [course, begin', Program.wp_bind, Program.wp_pure]
  refine (Exchange.wp_start_keeps hid hroute w).mono fun stage w hstage => ?_
  exact (wp_occurAll hid ⟨rfl, hstage⟩ occurrences w).mono fun f w h => wp_outcome hid h w

omit hid

/-- The answer to a request for buckets or objects states one operation id, whatever the calls of the request
come back with and however its payload arrives. A request that has none gets a new one; that of any other is
stated unchanged, unless there is a tab in it and the request is refused outside of a transfer. -/
theorem echoes (hroute : x.Reaches) {random : Bytes} (hlength : random.length = 16)
    (hfresh : x.fresh.operationId = Base32.encode random) {σ : Type}
    (perform : (c : Call) → σ → Reply c.Answer × σ) (s : σ) (occurrences : List Occurrence) :
    let a := ((course x occurrences).run perform s).1.answer
    ∃ id, a.fields.values Header.operationId = [id] ∧
      match x.request.headers.text? Header.operationId with
      | none => id = x.fresh.operationId ∧ Base32.isOperationId id = true
      | some given => (id = given ∨ id = headerSafe given) ∧
          (id = given ↔ ¬ x.IsRefusal a ∨ '\t' ∉ given.toList) := by
  intro a
  have hrefusal (h : x.IsRefusal a) : a.fields.values Header.operationId = [headerSafe x.operationId] := by
    obtain ⟨e, he⟩ := h
    rw [he, Exchange.finish, Fields.values_insert, if_neg (by decide), Fields.values_insert, if_neg (by decide)]
    rfl
  have hcourse (hid : Fields.validValue x.operationId = true) : x.Echoed a :=
    Program.run_of_wp_any (wp_course hid hroute occurrences ()) perform s
  obtain ⟨hplain, htab⟩ := Base32.isReadable_encode random
  cases hgiven : x.request.headers.text? Header.operationId with
  | none =>
    have hid : x.operationId = Base32.encode random := by
      rw [Exchange.operationId, Session.operationIdOf, hgiven, Option.getD_none, hfresh]
    refine ⟨Base32.encode random, ?_, hfresh.symm, Base32.isOperationId_encode hlength⟩
    rcases hcourse (hid ▸ hplain.validValue) with h | h
    · rw [h, hid]
    · rw [hrefusal h, hid, (headerSafe_eq_self_iff hplain).mpr htab]
  | some given =>
    have hid : x.operationId = given := by
      rw [Exchange.operationId, Session.operationIdOf, hgiven, Option.getD_some]
    have hreadable := Headers.isReadable_text? hgiven
    have hsafe := headerSafe_eq_self_iff hreadable
    rw [hid] at hrefusal
    by_cases hrefused : x.IsRefusal a
    · refine ⟨headerSafe given, hrefusal hrefused, .inr rfl, ?_⟩
      simpa [hrefused] using hsafe
    · rcases hcourse (hid ▸ hreadable.validValue) with h | h
      · exact ⟨given, hid ▸ h, .inl rfl, by simp [hrefused]⟩
      · exact absurd h hrefused

end Flight

/-! ## Requests for a bucket -/

namespace Sample

/-- A request for the record of a bucket, with an operation id. -/
def bucketRequest (id : Bytes) : Exchange where
  gateway := {}
  request := { method := .get, target := "/buckets/photos", headers := ⟨[(Header.operationId, id)]⟩ }
  fresh :=
    { operationId := Base32.encode (List.replicate 16 0)
      recordId := "a1"
      now := ⟨⟨2025, 3, 14, by decide⟩, 9, 30, 0, 0, by decide⟩ }

theorem decode_bucket : Route.decode (.bucket "photos") = .ok (.bucket "photos") := by
  rw [Route.decode, Route.decodePart, Segment.decode?_of_not_mem (by decide)]
  rfl

theorem fresh_bucketRequest (id : Bytes) :
    (bucketRequest id).fresh.operationId = Base32.encode (List.replicate 16 0) := by
  simp only [bucketRequest]

theorem reaches_bucketRequest (id : Bytes) : (bucketRequest id).Reaches := by
  have hpath : Route.ofPath? (Route.pathOf "/buckets/photos") = some (.bucket "photos") := by decide
  have hmethod : Method.get ∈ (Route.bucket "photos").methods := by decide
  exact ⟨_, _, hpath, hmethod, decode_bucket, by decide, by decide⟩

end Sample

/-- A request with an operation id that has blanks around it. -/
theorem Flight.echoes_bucket_request :
    let x := Sample.bucketRequest [0x20, 0x6A, 0x6F, 0x62, 0x20, 0x37, 0x20]
    let a := ((course x []).run Store.perform {}).1.answer
    x.Reaches ∧ x.fresh.operationId = Base32.encode (List.replicate 16 0) ∧
      ∃ id, a.fields.values Header.operationId = [id] ∧
        match x.request.headers.text? Header.operationId with
        | none => id = x.fresh.operationId ∧ Base32.isOperationId id = true
        | some given => (id = given ∨ id = headerSafe given) ∧
            (id = given ↔ ¬ x.IsRefusal a ∨ '\t' ∉ given.toList) :=
  ⟨Sample.reaches_bucketRequest _, Sample.fresh_bucketRequest _,
    Flight.echoes (Sample.reaches_bucketRequest _) List.length_replicate (Sample.fresh_bucketRequest _)
      Store.perform {} []⟩

/-- A request for a bucket that does not exist is refused, and its operation id is not stated as it was
given. -/
theorem Flight.tab_replaced :
    let x := Sample.bucketRequest [0x61, 0x09, 0x62]
    let a := ((course x []).run Store.perform {}).1.answer
    x.Reaches ∧ x.request.headers.text? Header.operationId = some "a\tb" ∧
      a.fields.values Header.operationId = ["a?b"] := by
  intro x a
  refine ⟨Sample.reaches_bucketRequest _, by decide, ?_⟩
  have hpath : Route.ofPath? (Route.pathOf x.request.target) = some (.bucket "photos") := by decide
  have hallowed : (Route.bucket "photos").methods.contains x.request.method = true := by decide
  have hrefused : a = x.finish (x.reject (ObjectResource.bucketMissing "photos")) := by
    simp only [a, course, begin', occurAll, Exchange.start, hpath, hallowed, Sample.decode_bucket]
    rfl
  rw [hrefused]
  decide

end Depot
