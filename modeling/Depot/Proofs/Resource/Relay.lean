import Depot.Proofs.Catalog.Agreement
import Depot.Proofs.History
import Depot.Proofs.Record.Block
import Depot.Proofs.Transfer.Download
import Depot.Resource.Remote
import Depot.Store

/-!
# Objects of the peer site

An object that was uploaded on one site is read from another one. The other site answers with the headers of a
record of its own, which it read of the peer's answer: what is not plain ASCII there is lost on the way.

## Main results

* `Upload.wp_run_updated` — what an upload that was answered leaves in the catalog.
* `Download.served_of_run` — what the peer answers.
* `RemoteResource.relayed_eq_iff` — whether the other site answers with the same headers.
-/

namespace Depot

open Depot.Action Headers Fields

namespace ObjectResource

/-! ## What an upload leaves -/

/-- The record of an upload whose payload was stored. -/
def uploaded (c : Context) (h : Headers) (k : Key) (hash : Option String) (size : Nat) : ObjectRecord :=
  { newRecord c (.ofHeaders h) k with hash, size, status := .ready }

/-- Whether a record is what an upload leaves in a catalog, in memory or in tables. -/
def Leaves (c : Context) (h : Headers) (k : Key) (r : ObjectRecord) : Prop :=
  ∃ hash size, r = uploaded c h k hash size ∨ r = (uploaded c h k hash size).stored

theorem sorted_metadata_ofHeaders (h : Headers) : (ObjectRecord.ofHeaders h).metadata.Sorted := by
  show (((h.text? Header.metadata).map Metadata.ofText).getD []).Sorted
  cases h.text? Header.metadata with
  | none => exact List.Pairwise.nil
  | some s => exact Metadata.sorted_ofText s

theorem Leaves.sorted_metadata {c : Context} {h : Headers} {k : Key} {r : ObjectRecord} (hr : Leaves c h k r) :
    r.metadata.Sorted := by
  obtain ⟨hash, size, rfl | rfl⟩ := hr
  · exact sorted_metadata_ofHeaders h
  · exact sorted_metadata_ofHeaders h

end ObjectResource

open ObjectResource

section Upload

variable {σ : Type} {perform : (c : Call) → σ → Reply c.Answer × σ} {c : Context} {write : String → Consumer Written}
  {settings : Settings} {session : Session} {k : Key} {h : Headers} {u : Upload State Written} {w : σ}

/-- Whether the last that became of a store was that the record of an upload was put into it. -/
def Updated (perform : (c : Call) → σ → Reply c.Answer × σ) (c : Context) (h : Headers) (k : Key) (w : σ) : Prop :=
  ∃ hash size before, perform (.updateObject (uploaded c h k hash size)) before = (.ok (), w)

/-- Whether an upload that was answered has put its record into the store. -/
def AnsweredUpdated (perform : (c : Call) → σ → Reply c.Answer × σ) (c : Context) (h : Headers) (k : Key)
    (x : Ending × Upload State Written) (w : σ) : Prop :=
  ∀ a, x.1 = .answered a → Updated perform c h k w

theorem wp_running_of_forall {ρ α : Type} {Q : Except Trouble α → ρ → σ → Prop} (hQ : ∀ r s w, Q r s w)
    (a : Action ρ α) (s : ρ) (w : σ) : a.wp (.running perform) Q s w :=
  Program.wp_running_iff.mpr (hQ _ _ _)

theorem ObjectResource.wp_answer_updated {hash : Option String} {size : Nat} {s : State}
    (hrecord : s.record = some (newRecord c (.ofHeaders h) k)) :
    (answer hash size).wp (.running perform)
      (fun r s w => ∀ y, r = .ok y → s.settled = true ∧ Updated perform c h k w) s w := by
  have hmark (message : String) (s : State) :
      (do markFailed; refuse (.internal message) : Action State ObjectRecord).wp (.running perform)
        (fun r s w => ∀ y, r = .ok y → s.settled = true ∧ Updated perform c h k w) s w := by
    rw [wp_bind]
    refine wp_running_of_forall (fun r s w => ?_) _ _ _
    cases r <;> simp
  simp only [answer, wp_bind, wp_get, wp_set]
  cases s.writer with
  | none => simp
  | some x =>
    cases x with
    | refused e => exact hmark _ _
    | crashed => exact hmark _ _
    | stored n =>
      simp only [hrecord, wp_bind, wp_modify, wp_updateObject]
      refine Meaning.pre_running fun (a : Reply Unit) after hreply => ?_
      cases a with
      | ok _ => exact fun y _ => ⟨rfl, hash, size, w, hreply⟩
      | failed e => simp
      | crashed m => simp

/-- An ending that is no answer does not become one. -/
theorem unanswered_andThen {e : Ending} (he : ∀ a, e ≠ .answered a) (released : Except Trouble Unit)
    (u : Upload State Written) (w : σ) : AnsweredUpdated perform c h k (e.andThen released, u) w := by
  rcases released with (x | m) | x
  · exact fun a ha => absurd ha (he a)
  · intro a ha
    cases ha
  · exact fun a ha => absurd ha (he a)

/-- An upload that ran into trouble is not answered. -/
theorem Upload.wp_finish_unanswered (t : Trouble) (w : σ) :
    (finish (hooks c write) settings session k (.error t, u)).wp (.running perform)
      (AnsweredUpdated perform c h k) w := by
  cases t with
  | crashed m =>
    simp only [finish, Program.wp_bind, Program.wp_pure, wp_start, hook, wp_zoom, hooks]
    exact wp_running_of_forall (fun released s w => unanswered_andThen (by simp) released _ w) _ _ _
  | refused e =>
    simp only [finish, fail, Program.wp_bind, Program.wp_pure, wp_start, hook, wp_bind, wp_modify, wp_zoom,
      hooks, wp_pure]
    exact wp_running_of_forall (fun released s w => unanswered_andThen (by simp) released _ w) _ _ _

/-- Concluding an upload that was admitted. -/
theorem Upload.wp_conclude_updated (hrecord : u.resource.record = some (newRecord c (.ofHeaders h) k)) :
    (conclude (hooks c write) settings session k u).wp (.running perform) (AnsweredUpdated perform c h k) w := by
  rw [conclude, Program.wp_bind, wp_start, complete]
  simp only [wp_bind, wp_get, setStream, wp_modify]
  generalize u.stream.waitFor settings.responseTimeout = waited
  obtain ⟨outcome, stream⟩ := waited
  cases outcome with
  | error e => exact wp_finish_unanswered _ w
  | ok size =>
    simp only [wp_ofExcept_ok]
    have hkept : (receive (hooks c write) size { u with stream }).resource.record =
        some (newRecord c (.ofHeaders h) k) := by
      rw [← hrecord, receive]
      dsimp only
      split <;> rfl
    generalize receive (hooks c write) size { u with stream } = u at *
    refine wp_finalHash (fun hash => ?_) fun t _ => wp_finish_unanswered t w
    simp only [respond, hook, wp_bind, wp_zoom]
    refine (wp_answer_updated hkept).mono fun r s w hs => ?_
    cases r with
    | error t => exact wp_finish_unanswered t w
    | ok y =>
      obtain ⟨hsettled, hupdated⟩ := hs y rfl
      simp only [hooks, wp_pure]
      exact wp_finish_ok hsettled fun u' _ a _ => hupdated

/-- What an upload that was answered leaves in the catalog: its record was put there last. -/
theorem Upload.wp_run_updated {body : Source} (hdirection : session.direction = .upload) :
    (run (hooks c write) settings session k (.ofHeaders h) body).wp (.running perform)
      (AnsweredUpdated perform c h k) w := by
  refine wp_run hdirection ?_
  rw [Upload.accept, wp_bind]
  refine wp_prepare rfl ?_
  simp only [hook, wp_bind, wp_zoom]
  refine wp_accept rfl (Meaning.pre_running fun a w _ => ?_)
  split
  · refine Meaning.pre_running fun (a : Reply (Option Status)) w _ => ?_
    intro s
    rcases a with (_ | t) | e | m
    · intro hs
      simp only [wp_get, wp_ofProgram, adopt, wp_modify]
      refine Program.wp_running_iff.mpr ?_
      exact wp_conclude_updated hs.record
    · exact fun _ => wp_finish_unanswered _ w
    · exact fun t _ _ => wp_finish_unanswered t w
    · exact fun t _ _ => wp_finish_unanswered t w
  · exact fun t _ => wp_finish_unanswered t w

end Upload

/-- What is found of a record that was put into a catalog. -/
theorem Catalog.getObject_updateObject {c c' : Catalog} {r : ObjectRecord} (hr : r.metadata.Sorted)
    (h : c.updateObject r = (.ok (), c')) : c'.getObject r.key = some r ∨ c'.getObject r.key = some r.stored := by
  cases c with
  | memory c =>
    simp only [updateObject, MemoryCatalog.updateObject] at h
    split at h
    · obtain ⟨-, rfl⟩ := Prod.mk.inj h
      exact .inl ((SortedMap.get?_insert ..).trans (if_pos rfl))
    · cases (Prod.mk.inj h).1
  | table t =>
    simp only [updateObject, Table.updateObject] at h
    split at h
    · split at h
      · rename_i row hrow
        obtain ⟨-, rfl⟩ := Prod.mk.inj h
        refine .inr ((t.getObject_changeObject hrow r.key).trans ?_)
        rw [if_pos rfl, Table.ObjectRow.toRecord_ofRecord hr]
      · cases (Prod.mk.inj h).1
    · cases (Prod.mk.inj h).1

/-- What an upload that was answered leaves in the catalog of a store. -/
theorem Store.leaves_of_run {c : Context} {write : String → Consumer Written} {settings : Settings} {session : Session}
    {k : Key} {h : Headers} {body : Source} {s : Store} {a : Answer} (hdirection : session.direction = .upload)
    (hanswer : ((Upload.run (hooks c write) settings session k (.ofHeaders h) body).run perform s).1.1 = .answered a) :
    ∃ r, ((Upload.run (hooks c write) settings session k (.ofHeaders h) body).run perform s).2.catalog.getObject k =
      some r ∧ Leaves c h k r := by
  have hupdated : AnsweredUpdated perform c h k
      ((Upload.run (hooks c write) settings session k (.ofHeaders h) body).run perform s).1
      ((Upload.run (hooks c write) settings session k (.ofHeaders h) body).run perform s).2 :=
    Program.wp_running_iff.mp (Upload.wp_run_updated hdirection)
  replace hupdated := hupdated a hanswer
  generalize ((Upload.run (hooks c write) settings session k (.ofHeaders h) body).run perform s).2 = t at *
  obtain ⟨hash, size, before, hperform⟩ := hupdated
  obtain ⟨hreply, rfl⟩ := Prod.mk.inj hperform
  have hcall : before.catalog.updateObject (uploaded c h k hash size) =
      (.ok (), (before.catalog.updateObject (uploaded c h k hash size)).2) := by
    have hmade : (Reply.ofExcept (before.catalog.updateObject (uploaded c h k hash size)).1 : Reply Unit) = .ok () :=
      hreply
    refine Prod.ext ?_ rfl
    cases hresult : (before.catalog.updateObject (uploaded c h k hash size)).1 with
    | ok _ => rfl
    | error e =>
      rw [hresult] at hmade
      cases hmade
  have hmetadata : (uploaded c h k hash size).metadata.Sorted := sorted_metadata_ofHeaders h
  rcases Catalog.getObject_updateObject hmetadata hcall with hsame | hstored
  · exact ⟨_, hsame, hash, size, .inl rfl⟩
  · exact ⟨_, hstored, hash, size, .inr rfl⟩

/-! ## What the peer answers -/

namespace ObjectRecord

variable {name : String}

/-- The names that a download puts in itself are none of a record. -/
theorem fieldNames_foreign : ∀ name ∈ fieldNames, Header.operationId ≠ name ∧ Header.connection ≠ name ∧
    Header.transferEncoding ≠ name ∧ Header.contentEncoding ≠ name ∧ Text.lower Header.contentType ≠ name := by
  decide

/-- What can be written of a record goes over the wire beside any payload. -/
theorem sent?_framed (r : ObjectRecord) (order : Metadata.Order) {session : Session} {coded : Bool}
    (hname : name ∈ fieldNames) :
    (Download.framed session coded (r.toFields order)).sent? name = written (r.value order name) := by
  obtain ⟨hid, hconnection, htransfer, hcoding, -⟩ := fieldNames_foreign name hname
  rw [Download.sent?_framed hid hconnection htransfer hcoding, r.sent?_toFields order hname]

end ObjectRecord

namespace Download

variable {σ : Type} {perform : (c : Call) → σ → Reply c.Answer × σ}

/-- Finding out whether an object can be downloaded keeps the record that was found. -/
theorem wp_readable_running {k : Key} {p : σ} {r : ObjectRecord} {s : State}
    (hrecord : (perform (.getObject k) p).1 = .ok (some r)) : (readable k).wp (.running perform)
      (fun b t _ => t.settled = s.settled ∧ (b = .ok true → t.record = some r)) s p := by
  simp only [readable, wp_bind, wp_call]
  refine Meaning.pre_running fun a w hreply => ?_
  obtain rfl : .ok (some r) = a := by rw [← hrecord, hreply]
  simp only [Reply.called_ok]
  split
  · exact ⟨rfl, by simp⟩
  · simp only [wp_bind, wp_call]
    refine Meaning.pre_running fun (a : Reply Bool) w _ => ?_
    rcases a with b | e | m
    · cases b with
      | false => exact ⟨rfl, by simp⟩
      | true => exact ⟨rfl, fun _ => rfl⟩
    · simp
    · simp

/-- A download is answered with the record that was found. -/
theorem served_of_run {x : Retrieval} {p : σ} {r : ObjectRecord} {own : Answer}
    (hrecord : (perform (.getObject x.key) p).1 = .ok (some r)) (hown : (x.course.run perform p).1 = .answered own) :
    ∃ source, own = served x.context.order x.session r source := by
  suffices h : x.course.wp (.running perform) (fun e _ => ∀ own, e = .answered own →
      ∃ source, own = served x.context.order x.session r source) p from Program.wp_running_iff.mp h own hown
  have hfinish {a : Except Trouble Answer} {s : State} {w : σ} (hs : s.settled = true)
      (ha : ∀ own, a = .ok own → ∃ source, own = served x.context.order x.session r source) :
      (finish (hooks x.context) x.settings x.session x.key (a, s)).wp (.running perform)
        (fun y _ => ∀ own, y.1 = .answered own → ∃ source, own = served x.context.order x.session r source) w := by
    refine wp_finish hs a fun y hy b hb => ?_
    rcases a with (e | m) | a
    · obtain ⟨_, -, rfl⟩ := hy
      cases hb
    · obtain rfl := hy
      cases hb
    · obtain rfl := hy
      exact ha b (by rw [Ending.answered.inj hb])
  simp only [Retrieval.course, Program.wp_bind, Program.wp_pure, pull, wp_start, wp_bind]
  refine (wp_readable_running hrecord).mono fun b s w hs => ?_
  obtain ⟨hsettled, hfound⟩ := hs
  cases b with
  | error t => exact hfinish hsettled (by simp)
  | ok found =>
    cases found with
    | false => exact hfinish hsettled (by simp)
    | true =>
      have hdirection : x.session.direction = .download := rfl
      refine wp_streamOut hdirection (hfound rfl) (Meaning.pre_running fun (a : Reply Source) w _ => ?_)
      cases a with
      | ok source => exact hfinish hsettled fun own h => ⟨source, (Except.ok.inj h).symm⟩
      | failed e => exact fun t => hfinish hsettled (by simp)
      | crashed m => exact fun t => hfinish hsettled (by simp)

/-- Under the names of records, the peer answers with what can be written of the record. -/
theorem sent?_served {order : Metadata.Order} {session : Session} {r : ObjectRecord} {source : Source} {name : String}
    (hname : name ∈ ObjectRecord.fieldNames) :
    (served order session r source).fields.sent? name = written (r.value order name) := by
  obtain ⟨hid, hconnection, htransfer, hcoding, htype⟩ := ObjectRecord.fieldNames_foreign name hname
  show (framed session session.compressOut ((r.toFields order).insert Header.contentType octetsType)).sent? name = _
  rw [sent?_framed hid hconnection htransfer hcoding, sent?_insert_of_ne htype, r.sent?_toFields order hname]

end Download

/-! ## What the other site answers -/

namespace RemoteResource

/-- The request that asks the peer for an object. -/
def Context.request (c : Context) (k : Key) : PeerRequest :=
  { url := objectUrl c.peerUrl k, operationId := c.operationId, acceptZstd := c.acceptZstd, clientId := c.clientId }

/-- The answer to a download of a remote object, given what the peer answered. -/
def relayed (order : Metadata.Order) (session : Session) (answer : PeerAnswer) : Answer :=
  let source : PullSource :=
    { outlet := .bare answer.body, compressed := answer.headers.hasToken Header.contentEncoding zstdToken }
  Download.carrying session source ((ObjectRecord.ofHeaders answer.headers).toFields order)
    (if session.compressOut && !source.compressed then .compressing answer.body else .bare answer.body)

section Answering

variable {σ : Type} {perform : (c : Call) → σ → Reply c.Answer × σ} {c : Context} {order : Metadata.Order}
  {settings : Settings} {session : Session} {k : Key} {request : Headers} {answer : PeerAnswer} {w : σ}

theorem run_readable (hurl : c.peerUrl ≠ "") (hfetch : (perform (.fetch (c.request k)) w).1 = .ok answer)
    (hstatus : answer.status = 200) : ((readable c k order).start {}).run perform w =
      ((.ok true, ⟨some answer, (ObjectRecord.ofHeaders answer.headers).toFields order⟩),
        (perform (.fetch (c.request k)) w).2) := by
  refine Program.wp_running_iff (Q := fun x v => (x, v) = _) |>.mp ?_
  show (readable c k order).wp (.running perform) (fun r s v => ((r, s), v) = _) {} w
  rw [readable, if_neg (by simpa using hurl)]
  simp only [wp_bind, wp_attempt]
  refine Meaning.pre_running fun (a : Reply PeerAnswer) v hreply => ?_
  obtain rfl : .ok answer = a := by rw [← hfetch, Context.request, hreply]
  simp only [Reply.attempted_ok]
  rw [if_neg (by omega), if_neg (by omega)]
  simp [Context.request, hreply]

/-- A download of a remote object that the peer has is answered. -/
theorem run_pull (hurl : c.peerUrl ≠ "") (hdirection : session.direction = .download)
    (hfetch : (perform (.fetch (c.request k)) w).1 = .ok answer) (hstatus : answer.status = 200) :
    ((Download.pull (hooks c order) settings session k request {}).run perform w).1.1 =
      .answered (relayed order session answer) := by
  have hencode (compressed coded : Bool) : Download.encode ⟨.bare answer.body, compressed⟩ coded =
      .ok (if coded then .compressing answer.body else .bare answer.body) := by
    cases coded <;> rfl
  refine Download.run_pull hdirection (run_readable hurl hfetch hstatus) rfl rfl (hencode _ _) fun m h => ?_
  cases h

end Answering

section Relaying

variable {σ τ : Type} {peer : (c : Call) → σ → Reply c.Answer × σ} {here : (c : Call) → τ → Reply c.Answer × τ}
  {p : σ} {w : τ} {d : ObjectResource.Context} {h : Headers} {x : Retrieval} {r : ObjectRecord} {own : Answer}
  {c : Context} {session : Session} {answer : PeerAnswer} (order : Metadata.Order) (settings : Settings)
  (request : Headers)

/-- What both sites answer under the names of records. -/
theorem run_pull_values (hsize : r.size < Text.wordBound)
    (hrecord : (peer (.getObject x.key) p).1 = .ok (some r)) (hown : (x.course.run peer p).1 = .answered own)
    (hurl : c.peerUrl ≠ "") (hdirection : session.direction = .download)
    (hfetch : (here (.fetch (c.request x.key)) w).1 = .ok answer) (hstatus : answer.status = own.status)
    (hheaders : ∀ name ∈ ObjectRecord.fieldNames,
      answer.headers.values name = own.onWire.fields.toHeaders.values name) :
    ((Download.pull (hooks c order) settings session x.key request {}).run here w).1.1 =
        .answered (relayed order session answer) ∧
      ∀ name ∈ ObjectRecord.fieldNames,
        own.onWire.fields.get? name = written (r.value x.context.order name) ∧
        (relayed order session answer).onWire.fields.get? name =
          (written (r.value x.context.order name)).bind (ObjectRecord.carried order name) := by
  obtain ⟨source, rfl⟩ := Download.served_of_run hrecord hown
  have hpeer {name : String} (hname : name ∈ ObjectRecord.fieldNames) :
      (Download.served x.context.order x.session r source).onWire.fields.get? name =
        written (r.value x.context.order name) :=
    (get?_onWire _ name).trans (Download.sent?_served hname)
  have hread : ∀ name ∈ ObjectRecord.fieldNames,
      answer.headers.text? name = (written (r.value x.context.order name)).bind read? := by
    intro name hname
    have hlower := (ObjectRecord.fieldNames_plain name hname).2
    rw [text?_of_values ((hheaders name hname).trans (values_toHeaders hlower)), hpeer hname]
  refine ⟨run_pull hurl hdirection hfetch hstatus, fun name hname => ⟨hpeer hname, ?_⟩⟩
  rw [← ObjectRecord.written_value_ofHeaders order hsize hread hname]
  exact (get?_onWire _ name).trans ((ObjectRecord.ofHeaders answer.headers).sent?_framed order hname)

/-- The other site answers with the values of the peer that it could read, and with the same headers exactly if
the record is portable. Each site lists attributes in an order of its own. -/
theorem relayed_eq_iff (hr : Leaves d h x.key r) (hsize : r.size < Text.wordBound)
    (hrecord : (peer (.getObject x.key) p).1 = .ok (some r)) (hown : (x.course.run peer p).1 = .answered own)
    (hurl : c.peerUrl ≠ "") (hdirection : session.direction = .download)
    (hfetch : (here (.fetch (c.request x.key)) w).1 = .ok answer) (hstatus : answer.status = own.status)
    (hheaders : ∀ name ∈ ObjectRecord.fieldNames,
      answer.headers.values name = own.onWire.fields.toHeaders.values name) :
    ∃ b, ((Download.pull (hooks c order) settings session x.key request {}).run here w).1.1 = .answered b ∧
      (∀ name ∈ ObjectRecord.fieldNames,
        b.onWire.fields.get? name = (own.onWire.fields.get? name).bind (ObjectRecord.carried order name)) ∧
      ((∀ name ∈ ObjectRecord.fieldNames, b.onWire.fields.get? name = own.onWire.fields.get? name) ↔
        r.Portable x.context.order order) := by
  obtain ⟨hanswered, hvalues⟩ := run_pull_values order settings request hsize hrecord hown hurl hdirection hfetch
    hstatus hheaders
  refine ⟨_, hanswered, fun name hname => ?_, ?_⟩
  · obtain ⟨hpeer, hcarried⟩ := hvalues name hname
    rw [hpeer, hcarried]
  · rw [← ObjectRecord.carried_eq_iff hr.sorted_metadata]
    refine forall₂_congr fun name hname => ?_
    obtain ⟨hpeer, hcarried⟩ := hvalues name hname
    rw [hpeer, hcarried]

end Relaying

/-! ## Two objects -/

namespace Sample

def key : Key := Depot.Sample.key

def accented : Key := ⟨"photos", "café"⟩

/-- An upload of three bytes that expire with the year 2029 and have two attributes. -/
def deposit (key : Key) (valid : key.Valid) : Deposit where
  context := { Depot.Sample.context with digest := false }
  key := key
  valid := valid
  headers :=
    ⟨[(Header.expires, [50, 48, 51, 48, 45, 48, 49, 45, 48, 49, 84, 48, 48, 58, 48, 48, 58, 48, 48, 90]),
      (Header.metadata, [123, 34, 98, 34, 58, 34, 50, 34, 44, 34, 97, 34, 58, 34, 49, 34, 125])]⟩
  body := .ofPieces [[1, 2], [3]]

/-- The peer site after an upload. -/
def peer (d : Deposit) : Store :=
  (play Store.perform [.createBucket d.key.bucket d.context.site d.context.now, .upload d] {}).2

/-- The record of the upload. -/
def record (key : Key) (valid : key.Valid) : ObjectRecord :=
  uploaded (deposit key valid).context (deposit key valid).headers key none 3

theorem leaves_record (key : Key) (valid : key.Valid) :
    Leaves (deposit key valid).context (deposit key valid).headers key (record key valid) :=
  ⟨none, 3, .inl rfl⟩

/-- A download from a site that lists attributes from the last one on. -/
def retrieval (key : Key) : Retrieval := { context := { Depot.Sample.context with order := .lastFirst }, key }

/-- What the peer answers to a download. -/
def serve (key : Key) (valid : key.Valid) : Ending :=
  ((retrieval key).course.run Store.perform (peer (deposit key valid))).1

/-- What arrives of an answer of the peer. -/
def arriving (a : Answer) : PeerAnswer := ⟨a.status, a.onWire.fields.toHeaders, .ofBytes [1, 2, 3]⟩

/-- A site whose peer gives one answer. -/
def here (a : Answer) (c : Call) (s : Unit) : Reply c.Answer × Unit :=
  match c with
  | .fetch _ => (.ok (arriving a), s)
  | _ => (.crashed "", s)

def site : Context := { peerUrl := "http://south", operationId := "op", acceptZstd := false, clientId := none }

def session : Session := .setup {} .download 0 none false "op"

/-- What the other site answers to a download, given what the peer answered. -/
def relay (order : Metadata.Order) (key : Key) (own : Answer) : Ending :=
  ((Download.pull (hooks site order) {} session key {} {}).run (here own) ()).1.1

theorem metadata_record : (record key (by decide)).metadata = [("a", "1"), ("b", "2")] := by
  decide +kernel

end Sample

/-- The object is relayed with its attributes and the time at which it expires, if both sites list attributes from
the last one on. -/
theorem relayed_eq_iff_expiring :
    ∃ own, Sample.serve Sample.key (by decide) = .answered own ∧
      ∃ b, Sample.relay .lastFirst Sample.key own = .answered b ∧
        ∀ name ∈ ObjectRecord.fieldNames, b.onWire.fields.get? name = own.onWire.fields.get? name := by
  have hserve : ∃ own, Sample.serve Sample.key (by decide) = .answered own := ⟨_, rfl⟩
  obtain ⟨own, hown⟩ := hserve
  have hsize : (Sample.record Sample.key (by decide)).size < Text.wordBound := by decide
  have hplain : IsPlain ((Sample.record Sample.key (by decide)).metadata.text .lastFirst) := by
    refine Metadata.isPlain_text ((Metadata.isReadable_text_iff _ _).mpr ?_)
    rw [Sample.metadata_record]
    decide
  have hportable : (Sample.record Sample.key (by decide)).Portable .lastFirst .lastFirst :=
    ⟨by decide, fun _ => ⟨hplain, rfl⟩, by decide⟩
  have hurl : Sample.site.peerUrl ≠ "" := by decide
  have hdirection : Sample.session.direction = .download := rfl
  have hfetch : (Sample.here own (.fetch (Sample.site.request Sample.key)) ()).1 = .ok (Sample.arriving own) := rfl
  obtain ⟨b, hb, -, hiff⟩ := relayed_eq_iff .lastFirst {} {} (Sample.leaves_record Sample.key (by decide)) hsize rfl
    hown hurl hdirection hfetch rfl fun _ _ => rfl
  exact ⟨own, hown, b, hb, hiff.mpr hportable⟩

/-- The name of the object is lost on the way. -/
theorem name_lost :
    ∃ own, Sample.serve Sample.accented (by decide) = .answered own ∧
      ∃ b, Sample.relay .lastFirst Sample.accented own = .answered b ∧
        own.onWire.fields.get? Header.name = some "café" ∧ b.onWire.fields.get? Header.name = none := by
  have hserve : ∃ own, Sample.serve Sample.accented (by decide) = .answered own := ⟨_, rfl⟩
  obtain ⟨own, hown⟩ := hserve
  have hsize : (Sample.record Sample.accented (by decide)).size < Text.wordBound := by decide
  have hurl : Sample.site.peerUrl ≠ "" := by decide
  have hdirection : Sample.session.direction = .download := rfl
  have hfetch : (Sample.here own (.fetch (Sample.site.request Sample.accented)) ()).1 =
      .ok (Sample.arriving own) := rfl
  obtain ⟨hb, hvalues⟩ := run_pull_values .lastFirst {} {} hsize rfl hown hurl hdirection hfetch rfl fun _ _ => rfl
  obtain ⟨hpeer, hother⟩ := hvalues Header.name (by decide)
  have hwritten : written ((Sample.record Sample.accented (by decide)).value
      (Sample.retrieval Sample.accented).context.order Header.name) = some "café" := by decide
  refine ⟨own, hown, _, hb, hpeer.trans hwritten, hother.trans ?_⟩
  rw [hwritten]
  decide

end RemoteResource

end Depot
