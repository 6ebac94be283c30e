import Depot.Proofs.Key
import Depot.Proofs.Resource.Download
import Depot.Proofs.Since

/-!
# Histories

Requests that come one after the other, each of them over before the next one begins: creating and
deleting buckets, uploading, downloading and deleting objects. A history lists them with their results.

## Main results

* `Turn.ensures_course` — what each request makes of a store.
* `play_induction` — what every request preserves holds at the end of every history.
-/

namespace Depot

open ObjectResource (Context State Written)

/-- A request to upload an object, and the storage's way of writing a stream. -/
structure Deposit where
  context : Context
  settings : Settings := {}
  key : Key
  valid : key.Valid
  headers : Headers := {}
  /-- A length that counts instead of the content length, unless it is zero. -/
  length : Nat := 0
  hash : Option String := none
  keepCompressed : Bool := false
  /-- The operation id, if the headers state none. -/
  operationId : String := ""
  body : Source
  write : String → Consumer Written := ObjectResource.write
  stores : (write key.path).Stores key.path [] False := by exact ObjectResource.stores_write _

namespace Deposit

variable (d : Deposit)

/-- The session of an upload. -/
def session : Session :=
  .setup d.headers .upload d.length d.hash d.keepCompressed d.operationId

/-- The stages of an upload. -/
def stages : Stages := Upload.stagesOf d.context d.session

/-- Whether the catalog can take the record of an upload, whatever comes of it. -/
def Fits (T : Terms) (d : Deposit) : Prop :=
  T.Fits 0 ∧ ∀ plain, d.stages.Plain d.body.bytes plain → T.Fits plain.length

/-- Run an upload to its end, and let its consumer go on if it has not come to its own. -/
def course : Program (Ending × Barrier) := do
  let (e, u) ← Upload.run (ObjectResource.hooks d.context d.write) d.settings d.session d.key
    (.ofHeaders d.headers) d.body
  let _ ← u.linger
  return (e, u.stream.barrier)

end Deposit

/-- A request to download an object. -/
structure Retrieval where
  context : Context
  settings : Settings := {}
  key : Key
  headers : Headers := {}
  /-- The operation id, if the headers state none. -/
  operationId : String := ""

namespace Retrieval

variable (r : Retrieval)

/-- The session of a download. -/
def session : Session := .setup r.headers .download 0 none false r.operationId

/-- Run a download to its end. -/
def course : Program Ending := do
  let (e, _) ← Download.pull (ObjectResource.hooks r.context) r.settings r.session r.key r.headers {}
  return e

end Retrieval

/-- A request. -/
inductive Turn where
  | createBucket (name site : String) (now : Instant)
  | deleteBucket (name : String)
  | deleteObject (key : Key)
  | upload (d : Deposit)
  | pull (r : Retrieval)

/-- The result of a request; that of an upload tells how its barrier was fired. -/
inductive Result where
  | bucket (r : Except Trouble BucketRecord)
  | object (r : Except Trouble ObjectRecord)
  | upload (e : Ending) (barrier : Barrier)
  | pull (e : Ending)

/-- Whether a request did not wait for too long. -/
def Result.Prompt : Result → Prop
  | upload _ barrier => barrier ≠ .failed .timedOut
  | _ => True

instance : DecidablePred Result.Prompt
  | .upload _ barrier => inferInstanceAs (Decidable (barrier ≠ .failed .timedOut))
  | .bucket _ | .object _ | .pull _ => isTrue trivial

namespace Turn

/-- The course of a request. -/
def course : Turn → Program Result
  | createBucket name site now => do return .bucket (← (BucketResource.create name site now).start ()).1
  | deleteBucket name => do return .bucket (← (BucketResource.delete name).start ()).1
  | deleteObject k => do return .object (← (ObjectResource.delete k).start ()).1
  | upload d => do
    let (e, barrier) ← d.course
    return .upload e barrier
  | pull r => do return .pull (← r.course)

/-- What a request with a result makes of a store. -/
inductive Effect (T : Terms) (v w : Snapshot) : Turn → Result → Prop
  | createBucket {name site : String} {now : Instant} {r : Except Trouble BucketRecord}
      (h : BucketResource.Created name v w) : Effect T v w (.createBucket name site now) (.bucket r)
  | deleteBucket {name : String} {r : Except Trouble BucketRecord}
      (h : BucketResource.Removed T name v w) : Effect T v w (.deleteBucket name) (.bucket r)
  | deleteObject {k : Key} {r : Except Trouble ObjectRecord} (h : ObjectResource.Erased T k v r w) :
      Effect T v w (.deleteObject k) (.object r)
  | upload {d : Deposit} {e : Ending} {b : Barrier}
      (h : Upload.Deposited T d.context.order d.session d.stages d.body d.key v e w) :
      Effect T v w (.upload d) (.upload e b)
  | pull {r : Retrieval} {e : Ending} (h : Download.Pulled r.context.order r.session r.key v e) (hw : w = v) :
      Effect T v w (.pull r) (.pull e)

end Turn

section Course

variable {T : Terms} {v : Snapshot}

theorem Deposit.ensures_course (d : Deposit) : d.course.Ensures T (fun x w =>
    x.2 ≠ .failed .timedOut → Upload.Deposited T d.context.order d.session d.stages d.body d.key v x.1 w) v := by
  simp only [course, Program.ensures_bind, Program.ensures_pure]
  refine Program.Ensures.mono (Upload.ensures_run rfl d.stores) ?_
  rintro ⟨e, u⟩ w (htimeout | ⟨hw, hover⟩)
  · exact Program.ensures_of_forall fun _ _ hprompt => absurd htimeout hprompt
  · let P (x : Ending × Upload State Written) (w : Snapshot) : Prop :=
      Upload.Deposited T d.context.order d.session d.stages d.body d.key v x.1 w
    exact (Upload.ensures_linger (P := P) hw hover).mono fun _ _ h _ => h

/-- What a request makes of a store, unless it waited for too long. -/
theorem Turn.ensures_course (t : Turn) :
    t.course.Ensures T (fun r w => r.Prompt → t.Effect T v w r) v := by
  cases t with
  | createBucket name site now =>
    simp only [course, Program.ensures_bind, Program.ensures_pure, Action.ensures_start]
    exact (BucketResource.ensures_create name site now).mono fun _ _ _ h _ => .createBucket h
  | deleteBucket name =>
    simp only [course, Program.ensures_bind, Program.ensures_pure, Action.ensures_start]
    exact (BucketResource.ensures_delete name).mono fun _ _ _ h _ => .deleteBucket h
  | deleteObject k =>
    simp only [course, Program.ensures_bind, Program.ensures_pure, Action.ensures_start]
    exact (ObjectResource.ensures_delete k).mono fun _ _ _ h _ => .deleteObject h
  | upload d =>
    simp only [course, Program.ensures_bind, Program.ensures_pure]
    exact d.ensures_course.mono fun _ _ h hprompt => .upload (h hprompt)
  | pull r =>
    simp only [course, Retrieval.course, Program.ensures_bind, Program.ensures_pure]
    exact (Download.ensures_pull rfl rfl).mono fun _ _ h _ => .pull h.1 h.2

end Course

/-! ## Playing -/

/-- A request that is over. -/
structure Event where
  turn : Turn
  result : Result

variable {σ : Type} {perform : (c : Call) → σ → Reply c.Answer × σ}

/-- Play requests one after the other: their history, and the store that they leave. -/
def play (perform : (c : Call) → σ → Reply c.Answer × σ) : List Turn → σ → List Event × σ
  | [], s => ([], s)
  | t :: rest, s =>
    let (r, s) := t.course.run perform s
    let (h, s) := play perform rest s
    (⟨t, r⟩ :: h, s)

/-- What every request preserves holds at the end of every history of which no request waited for too
long. -/
theorem play_induction {T : Terms} (C : Contract T perform) (Inv : List Event → Snapshot → Prop) {turns : List Turn}
    (hstep : ∀ {h : List Event} {t : Turn} {r : Result} {v w : Snapshot}, t ∈ turns → Inv h v → t.Effect T v w r →
      Inv (h ++ [⟨t, r⟩]) w) {s : σ} (h : List Event) (hs : C.Sound s)
    (hinv : Inv h (C.view s)) (hprompt : ∀ x ∈ (play perform turns s).1, x.result.Prompt) :
    C.Sound (play perform turns s).2 ∧
      Inv (h ++ (play perform turns s).1) (C.view (play perform turns s).2) := by
  induction turns generalizing s h with
  | nil => exact ⟨hs, by simpa [play] using hinv⟩
  | cons t rest ih =>
    obtain ⟨hr, hrest⟩ := List.forall_mem_cons.mp hprompt
    obtain ⟨hsound, heffect⟩ := C.ensures_run hs t.ensures_course
    have hnext := ih (fun ht => hstep (List.mem_cons_of_mem t ht)) _ hsound
      (hstep List.mem_cons_self hinv (heffect hr)) hrest
    rwa [List.append_assoc] at hnext

/-! ## What a history tells of an object -/

namespace Event

/-- Whether an upload of an object was answered with `a`, that something was created. -/
def Deposits (k : Key) (d : Deposit) (a : Answer) : Event → Prop
  | ⟨.upload d', .upload e _⟩ => d' = d ∧ d.key = k ∧ e.answer? = some a ∧ a.status = 201
  | _ => False

/-- Whether an object was deleted. -/
def Deletes (k : Key) : Event → Prop
  | ⟨.deleteObject l, .object (.ok _)⟩ => l = k
  | _ => False

/-- Whether something became of an object. -/
def Touches (k : Key) (x : Event) : Prop := (∃ d a, x.Deposits k d a) ∨ x.Deletes k

theorem Deposits.touches {k : Key} {d : Deposit} {a : Answer} {x : Event} (h : x.Deposits k d a) :
    x.Touches k := .inl ⟨d, a, h⟩

theorem Deposits.unique {k : Key} {d d' : Deposit} {a a' : Answer} {x : Event} (h : x.Deposits k d a)
    (h' : x.Deposits k d' a') : d = d' ∧ a = a' := by
  obtain ⟨t, r⟩ := x
  cases t <;> cases r
  case upload.upload d₀ e b =>
    obtain ⟨rfl, -, ha, -⟩ := h
    obtain ⟨rfl, -, ha', -⟩ := h'
    exact ⟨rfl, Option.some.inj (ha.symm.trans ha')⟩
  all_goals exact h.elim

end Event

/-- Whether an upload of an object was answered with `a`, that something was created, and the object was
not deleted afterwards. -/
def Served (h : List Event) (k : Key) (d : Deposit) (a : Answer) : Prop :=
  Since (Event.Deposits k d a) (Event.Deletes k) h

/-- Whether the last that became of an object was an upload that was answered with `a`. -/
def Latest (h : List Event) (k : Key) (d : Deposit) (a : Answer) : Prop :=
  Since (Event.Deposits k d a) (Event.Touches k) h

theorem Latest.unique {h : List Event} {k : Key} {d d' : Deposit} {a a' : Answer} (hl : Latest h k d a)
    (hl' : Latest h k d' a') : d = d' ∧ a = a' := by
  obtain ⟨x, hx, hx'⟩ := Since.unique (fun _ => Event.Deposits.touches) (fun _ => Event.Deposits.touches) hl hl'
  exact hx.unique hx'

/-! ## A short history -/

namespace Sample

def context : Context where
  site := "north"
  digest := true
  recordId := "a1"
  now := ⟨⟨2024, 1, 1, by decide⟩, 0, 0, 0, 0, by decide⟩

def key : Key := ⟨"photos", "2024/cat"⟩

def deposit : Deposit where
  context := context
  key := key
  valid := by decide
  body := .ofPieces [[1, 2], [3]]

/-- A bucket is created, and an object is uploaded into it. -/
def turns : List Turn := [.createBucket key.bucket context.site context.now, .upload deposit]

end Sample

end Depot
