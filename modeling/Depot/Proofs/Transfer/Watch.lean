import Depot.Proofs.Source
import Depot.Proofs.Store.Program
import Depot.Transfer.Download
import Depot.Transfer.Upload

/-!
# Watching a transfer

Hooks that write down every call that the engine makes of them, and consumers that write down what they are
given of a stream. Nothing else changes: a transfer whose hooks are watched runs as it does without that.

## Main results

* `Upload.run_watched`, `Download.pull_watched`, `Download.pullList_watched` — watching changes nothing.
-/

namespace Depot

/-! ## What is written down -/

/-- A call of a hook, and what came of it. -/
inductive HookEvent (ω : Type) where
  | wantsDigest (r : Except Trouble Bool)
  | accept (r : Except Trouble Unit)
  | answer (hash : Option String) (size : Nat) (r : Except Trouble ω)
  | answerFields (hash : Option String) (size : Nat) (r : Except Trouble Fields)
  | readable (r : Except Trouble Bool)
  | payload (r : Except Trouble Unit)
  | payloadFields (r : Except Trouble Fields)
  | errorFields (status : Nat) (r : Except Trouble Fields)

/-- The state of a resource, and the calls of its hooks so far. -/
structure Journaled (ρ ω : Type) where
  own : ρ
  calls : List (HookEvent ω) := []

/-- Whether a read brought nothing. -/
def ReadResult.isNothing : ReadResult → Bool
  | .ok [] => true
  | _ => false

/-- What a consumer was given of a stream, and whether it was told of the end. -/
structure Heard where
  bytes : Bytes := []
  ended : Bool := false
  deriving DecidableEq, Repr

namespace Heard

/-- A read of at most `n` bytes. -/
def read (g : Heard) (n : Nat) (r : ReadResult) : Heard :=
  ⟨g.bytes ++ r.bytes, g.ended || (n != 0 && r.isNothing)⟩

/-- Reading on until the end, or until a number of bytes is there. -/
def gather (g : Heard) (limit : Option Nat) (more : Bytes) (error : Option ReadError) : Heard :=
  ⟨g.bytes ++ more, g.ended || (error.isNone && limit.all (more.length < ·))⟩

end Heard

namespace Consumer

variable {α β : Type}

def map (f : α → β) : Consumer α → Consumer β
  | done a => done (f a)
  | read n next => read n fun r => (next r).map f
  | gather limit got next => gather limit got fun bytes error => (next bytes error).map f
  | pause ms next => pause ms (next.map f)
  | call c next => call c fun r => (next r).map f

/-- The consumer that also leaves behind what it was given. -/
def recording (g : Heard) : Consumer α → Consumer (Heard × α)
  | done a => done (g, a)
  | read n next => read n fun r => (next r).recording (g.read n r)
  | gather limit got next => gather limit got fun bytes error =>
    (next bytes error).recording (g.gather limit (bytes.drop got.flatten.length) error)
  | pause ms next => pause ms (next.recording g)
  | call c next => call c fun r => (next r).recording g

theorem map_recording (g : Heard) (c : Consumer α) : (c.recording g).map Prod.snd = c := by
  induction c generalizing g with
  | done a => rfl
  | read n next ih => exact congrArg (read n) (funext fun r => ih r _)
  | gather limit got next ih => exact congrArg (gather limit got) (funext fun b => funext fun e => ih b e _)
  | pause ms next ih => exact congrArg (pause ms) (ih g)
  | call c next ih => exact congrArg (call c) (funext fun r => ih r g)

end Consumer

namespace Progress

variable {α β : Type}

def map (f : α → β) : Progress α → Progress β
  | finished a => finished (f a)
  | waiting n next => waiting n fun r => (next r).map f
  | asleep next => asleep (next.map f)

end Progress

namespace Handover

variable {α β : Type}

def map (f : α → β) (h : Handover α) : Handover β := { h with progress := h.progress.map f }

end Handover

namespace Consumer

variable {α β : Type}

theorem gathered_map (f : α → β) (limit : Option Nat) (got : List Bytes)
    (next : Bytes → Option ReadError → Consumer α) (r : ReadResult) :
    gathered limit got (fun b e => (next b e).map f) r = (gathered limit got next r).map f := by
  rcases r with e | _ | ⟨b, rest⟩
  · rw [gathered, gathered]
    split <;> rfl
  · rfl
  · rfl

/-- A consumer is driven in the same way, whatever it leaves behind. -/
theorem drive_map (f : α → β) (c : Consumer α) (patience : Nat) (s : Stream) :
    (c.map f).drive patience s = Handover.map f <$> c.drive patience s := by
  induction c generalizing patience s with
  | done a => rfl
  | read n next ih =>
    rw [map, drive, drive]
    split
    · exact ih _ _ _
    · split
      · rfl
      · exact ih _ _ _
  | gather limit got next ih =>
    rw [map, drive, drive]
    split
    · simp only [Handover.map, Progress.map, map_pure, ← gathered_map]
    · exact ih _ _ _ _
  | pause ms next ih =>
    rw [map, drive, drive]
    split
    · rfl
    · exact ih _ _
  | call c next ih => exact congrArg (Program.call c) (funext fun r => ih r patience s)

end Consumer

/-! ## Watched hooks -/

namespace Action

variable {ρ ω α : Type}

/-- Run an action of the resource, and write down what came of it. -/
def watch (call : Except Trouble α → HookEvent ω) (a : Action ρ α) : Action (Journaled ρ ω) α := fun s => do
  let (r, t) ← a s.own
  return (r, ⟨t, s.calls ++ [call r]⟩)

end Action

namespace Hooks

variable {ρ ι ω κ : Type}

/-- The hooks that write down their calls, and what their consumers are given. -/
def watched (h : Hooks ρ ι ω κ) : Hooks (Journaled ρ ω) ι ω (Heard × κ) where
  wantsDigest i := (h.wantsDigest i).watch .wantsDigest
  accept i := (Consumer.recording {} <$> h.accept i).watch fun r => .accept (r.map fun _ => ())
  deliver k s := { s with own := h.deliver k.2 s.own }
  answer i hash size := (h.answer i hash size).watch (.answer hash size)
  answerFields i hash size output := (h.answerFields i hash size output).watch (.answerFields hash size)
  answerJson := h.answerJson
  readable i request := (h.readable i request).watch .readable
  payload i := (h.payload i).watch fun r => .payload (r.map fun _ => ())
  payloadFields i := (h.payloadFields i).watch .payloadFields
  errorFields i status := (h.errorFields i status).watch (.errorFields status)
  release := Action.zoom (·.own) (fun t s => { s with own := t }) h.release

end Hooks

namespace Upload

variable {ρ ι ω κ : Type}

/-- An upload that was not begun. -/
def fresh (settings : Settings) (resource : ρ) (body : Source) : Upload ρ κ :=
  { resource, stream := .ofSource body, patience := settings.responseTimeout }

/-- What is attempted before an upload is finished: to have it admitted and consumed, and to answer. -/
def attempt (h : Hooks ρ ι ω κ) (settings : Settings) (session : Session) (input : ι) :
    Action (Upload ρ κ) Answer := do
  accept h session input
  complete h settings session input

/-- An upload is attempted on an upload session, and finished in any case. -/
theorem run_eq (h : Hooks ρ ι ω κ) (settings : Settings) (session : Session) (input : ι) (resource : ρ)
    (body : Source) : run h settings session input resource body =
      (if session.direction = .upload then
        (attempt h settings session input).start (fresh settings resource body)
      else
        pure (.error (.refused (.invalidState "upload on a download session")),
          { fresh settings resource body with stream := (Stream.ofSource body).abort.2 })) >>=
      finish h settings session input := by
  have hend {k : Option Ending × Upload ρ κ → Program (Ending × Upload ρ κ)}
      (hk : ∀ e u, k (some e, u) = pure (e, u)) (t : Program (Ending × Upload ρ κ)) :
      (t >>= fun x => pure (some x.1, x.2)) >>= k = t := by
    simp only [bind_assoc, pure_bind, hk]
    exact bind_pure t
  rw [run, begin']
  split
  · rw [attempt, Action.start_bind, bind_assoc, bind_assoc]
    congr 1
    funext x
    obtain ⟨t | _, u⟩ := x
    · exact hend (fun _ _ => rfl) _
    · obtain ⟨_, stream, _ | ⟨_ | _ | _⟩, _, _, _⟩ := u
      · exact hend (fun _ _ => rfl) _
      · exact hend (fun _ _ => rfl) _
      · show (if stream.barrier = .pending then _ else _) >>= _ = _
        split
        · rfl
        · exact hend (fun _ _ => rfl) _
      · exact hend (fun _ _ => rfl) _
  · exact hend (fun _ _ => rfl) _

end Upload

/-! ## Watching changes nothing -/

namespace Action

variable {σ τ α β α' β' : Type} {p : τ → σ}

/-- Whether an action does to a part of a state what another one does to all of it. -/
def Shadows (p : τ → σ) (f : β → α) (b : Action τ β) (a : Action σ α) : Prop :=
  ∀ t, a.start (p t) = (fun x => (x.1.map f, p x.2)) <$> b.start t

theorem shadows_pure (f : β → α) (b : β) : Shadows p f (pure b) (pure (f b)) := fun _ => rfl

theorem shadows_ofExcept (r : Except TransferError α) : Shadows p id (ofExcept r) (ofExcept r) := by
  intro t
  cases r <;> rfl

theorem shadows_get : Shadows p p get get := fun _ => rfl

theorem shadows_modify {f : σ → σ} {g : τ → τ} (h : ∀ t, f (p t) = p (g t)) :
    Shadows p id (modify g) (modify f) := fun t => by
  show (pure (Except.ok ⟨⟩, f (p t)) : Program (Except Trouble PUnit × σ)) = pure (Except.ok ⟨⟩, p (g t))
  rw [h]

theorem shadows_ofProgram {f : β → α} {t : Program α} {u : Program β} (h : t = f <$> u) :
    Shadows p f (ofProgram u) (ofProgram t) := fun s => by
  show ((t >>= fun a => pure (a, p s)) >>= fun x => pure (Except.ok x.1, x.2)) =
    _ <$> ((u >>= fun b => pure (b, s)) >>= fun x => pure (Except.ok x.1, x.2))
  subst h
  simp [Except.map]

theorem Shadows.bind {f : β → α} {g : β' → α'} {a : Action σ α} {b : Action τ β} {k : α → Action σ α'}
    {l : β → Action τ β'} (h : Shadows p f b a) (hk : ∀ x, Shadows p g (l x) (k (f x))) :
    Shadows p g (b >>= l) (a >>= k) := fun t => by
  rw [start_bind, start_bind, h t]
  simp only [map_eq_pure_bind, LawfulMonad.bind_assoc, LawfulMonad.pure_bind]
  congr 1
  funext x
  obtain ⟨_ | b, t⟩ := x
  · simp [Except.map]
  · have hrest := hk b t
    simp only [map_eq_pure_bind] at hrest
    simp [Except.map, hrest]

theorem shadows_watch {ρ ω : Type} (call : Except Trouble α → HookEvent ω) (a : Action ρ α) :
    Shadows Journaled.own id (a.watch call) a := fun t => by
  show a t.own = _ <$> (a t.own >>= fun x => pure (x.1, _))
  simp [Except.map_id]

theorem shadows_watch_map {ρ ω : Type} {f : β → α} {g : α → β} (hfg : ∀ a, f (g a) = a)
    (call : Except Trouble β → HookEvent ω) (a : Action ρ α) :
    Shadows Journaled.own f ((g <$> a).watch call) a := fun t => by
  have hstart : (g <$> a).start t.own = (fun x => (x.1.map g, x.2)) <$> a.start t.own := by
    rw [map_eq_pure_bind, start_bind, map_eq_pure_bind]
    congr 1
    funext x
    obtain ⟨_ | b, t⟩ := x <;> rfl
  show a.start t.own = _ <$> ((g <$> a).start t.own >>= fun x => pure (x.1, _))
  rw [hstart, bind_map_left, map_bind]
  refine (bind_pure (a.start t.own)).symm.trans ?_
  congr 1
  funext x
  obtain ⟨_ | b, t⟩ := x
  · rfl
  · simp [Except.map, hfg]

theorem shadows_release {ρ ι ω κ : Type} (h : Hooks ρ ι ω κ) :
    Shadows Journaled.own id h.watched.release h.release :=
  fun t => by
    show h.release.start t.own = _ <$> (h.release.start t.own >>= fun x => pure (x.1, _))
    simp [Except.map_id]

end Action

namespace Upload

variable {ρ ι ω κ α β : Type}

/-- The upload without what was written down. -/
def plain (u : Upload (Journaled ρ ω) (Heard × κ)) : Upload ρ κ where
  resource := u.resource.own
  stream := u.stream
  progress := u.progress.map (Progress.map Prod.snd)
  patience := u.patience
  digest := u.digest
  received := u.received

open Depot.Action (Shadows)

theorem shadows_hook {f : β → α} {a : Action ρ α} {b : Action (Journaled ρ ω) β}
    (h : Shadows Journaled.own f b a) : Shadows (plain (κ := κ)) f (hook b) (hook a) := fun u => by
  show (a.start u.plain.resource >>= fun x => pure (x.1, _)) =
    _ <$> (b.start u.resource >>= fun x => pure (x.1, _))
  rw [show u.plain.resource = u.resource.own from rfl, h, bind_map_left, map_bind]
  rfl

/-- Taking the same part of an upload, or of what it is without what was written down. -/
theorem shadows_with {f : β → α} {a : Upload ρ κ → Action (Upload ρ κ) α}
    {b : Upload (Journaled ρ ω) (Heard × κ) → Action (Upload (Journaled ρ ω) (Heard × κ)) β}
    (h : ∀ u, Shadows plain f (b u) (a u.plain)) : Shadows plain f (get >>= b) (get >>= a) :=
  Action.shadows_get.bind h

theorem shadows_setStream (s : Stream) :
    Shadows plain id (setStream s : Action (Upload (Journaled ρ ω) (Heard × κ)) Unit) (setStream s) :=
  Action.shadows_modify fun _ => rfl

theorem shadows_enable (stage : Stream → Except TransferError Stream) :
    Shadows plain id (enable stage : Action (Upload (Journaled ρ ω) (Heard × κ)) Unit) (enable stage) :=
  shadows_with fun u => (Action.shadows_ofExcept (stage u.stream)).bind shadows_setStream

theorem shadows_adopt (handover : Handover (Heard × κ)) :
    Shadows plain id (adopt handover : Action (Upload (Journaled ρ ω) (Heard × κ)) Unit)
      (adopt (handover.map Prod.snd)) :=
  Action.shadows_modify fun _ => rfl

variable (h : Hooks ρ ι ω κ) (settings : Settings) (session : Session) (input : ι)

theorem shadows_prepare :
    Shadows (plain (κ := κ)) id (prepare h.watched session input) (prepare h session input) := by
  have hnote (digest : Bool) : Shadows (plain (κ := κ)) id
      (do if digest then enable Stream.enableDigest
          modify fun u => { u with digest := digest } : Action (Upload (Journaled ρ ω) (Heard × κ)) Unit)
      (do if digest then enable Stream.enableDigest
          modify fun u => { u with digest := digest }) := by
    cases digest with
    | true => exact (shadows_enable _).bind fun _ => Action.shadows_modify fun _ => rfl
    | false => exact Action.shadows_modify fun _ => rfl
  rw [prepare, prepare]
  by_cases hout : session.declaredHash.isNone = true <;> by_cases hin : session.decompressIn = true
  all_goals simp only [hout, hin, if_true, if_false, Bool.false_eq_true]
  · exact (shadows_enable _).bind fun _ => (shadows_hook (Action.shadows_watch _ _)).bind hnote
  · exact (shadows_hook (Action.shadows_watch _ _)).bind hnote
  · exact (shadows_enable _).bind fun _ => (Action.shadows_pure id false).bind hnote
  · exact (Action.shadows_pure id false).bind hnote

theorem shadows_accept :
    Shadows (plain (κ := κ)) id (accept h.watched session input) (accept h session input) := by
  have hconsumer : Shadows Journaled.own (Consumer.map Prod.snd) (h.watched.accept input) (h.accept input) :=
    Action.shadows_watch_map (Consumer.map_recording {}) (fun r => .accept (r.map fun _ => ())) (h.accept input)
  refine (shadows_prepare h session input).bind fun _ => (shadows_hook hconsumer).bind fun c => ?_
  refine shadows_with fun u => ?_
  exact (Action.shadows_ofProgram (Consumer.drive_map Prod.snd c u.patience u.stream)).bind shadows_adopt

theorem plain_receive (size : Nat) (u : Upload (Journaled ρ ω) (Heard × κ)) :
    receive h size u.plain = (receive h.watched size u).plain := by
  obtain ⟨_, _, _ | ⟨_ | _ | _⟩, _, _, _⟩ := u <;> rfl

theorem shadows_finalHash :
    Shadows (plain (κ := κ) (ρ := ρ) (ω := ω)) id (finalHash session) (finalHash session) := by
  refine shadows_with fun u => ?_
  show Shadows plain id (if u.digest = true then _ else _) (if u.digest = true then _ else _)
  split
  · exact (Action.shadows_ofExcept _).bind fun _ => Action.shadows_pure id _
  · exact Action.shadows_pure id _

theorem shadows_respond (hash : Option String) (size : Nat) : Shadows (plain (κ := κ)) id
    (respond h.watched session input hash size) (respond h session input hash size) :=
  (shadows_hook (Action.shadows_watch _ _)).bind fun _ =>
    (shadows_hook (Action.shadows_watch _ _)).bind fun _ => Action.shadows_pure id _

theorem shadows_complete : Shadows (plain (κ := κ)) id
    (complete h.watched settings session input) (complete h settings session input) := by
  refine shadows_with fun u => (shadows_setStream _).bind fun _ => (Action.shadows_ofExcept _).bind fun size => ?_
  refine (Action.shadows_modify (plain_receive h size)).bind fun _ => ?_
  exact (shadows_finalHash session).bind fun hash => shadows_respond h session input hash size

theorem shadows_fail (e : TransferError) : Shadows (plain (κ := κ)) id
    (fail h.watched settings session input e) (fail h settings session input e) := by
  rw [fail, fail]
  refine Shadows.bind (f := id) (Action.shadows_modify fun _ => rfl) fun _ => ?_
  exact (shadows_hook (Action.shadows_watch _ _)).bind fun _ => Action.shadows_pure id _

theorem shadows_release : Shadows (plain (κ := κ)) id (hook h.watched.release) (hook h.release) :=
  shadows_hook (Action.shadows_release h)

/-- The outcome of a program without what was written down. -/
def bare {ε : Type} (x : ε × Upload (Journaled ρ ω) (Heard × κ)) : ε × Upload ρ κ := (x.1, x.2.plain)

theorem finish_watched (r : Except Trouble Answer × Upload (Journaled ρ ω) (Heard × κ)) :
    finish h settings session input (bare r) = bare <$> finish h.watched settings session input r := by
  have hend (ending : Ending) (u : Upload (Journaled ρ ω) (Heard × κ)) :
      ((hook h.release).start u.plain >>= fun x =>
        pure (ending.andThen x.1, { x.2 with stream := x.2.stream.abort.2 }) : Program (Ending × Upload ρ κ)) =
      bare <$> ((hook h.watched.release).start u >>= fun x =>
        pure (ending.andThen x.1, { x.2 with stream := x.2.stream.abort.2 })) := by
    rw [shadows_release h u, bind_map_left, map_bind]
    congr 1
    funext x
    obtain ⟨_ | _, _⟩ := x <;> rfl
  obtain ⟨(e | m) | a, u⟩ := r
  · simp only [finish, bare, shadows_fail h settings session input e u, bind_map_left, map_bind]
    congr 1
    funext x
    obtain ⟨(e' | m) | a, u⟩ := x <;> exact (hend _ u).trans (map_bind ..)
  · exact hend (.crashed m) u
  · exact hend (.answered a) u

theorem shadows_attempt : Shadows (plain (κ := κ)) id
    (attempt h.watched settings session input) (attempt h settings session input) :=
  (shadows_accept h session input).bind fun _ => shadows_complete h settings session input

theorem run_watched (resource : ρ) (body : Source) : run h settings session input resource body =
    bare <$> run h.watched settings session input ⟨resource, []⟩ body := by
  rw [run_eq, run_eq, map_bind]
  by_cases hdirection : session.direction = .upload
  · rw [if_pos hdirection, if_pos hdirection, show fresh settings resource body =
      plain (fresh settings (⟨resource, []⟩ : Journaled ρ ω) body) from rfl, shadows_attempt, bind_map_left]
    congr 1
    funext x
    rw [Except.map_id]
    exact finish_watched h settings session input x
  · rw [if_neg hdirection, if_neg hdirection, pure_bind, pure_bind]
    exact finish_watched h settings session input (_,
      { fresh settings ⟨resource, []⟩ body with stream := (Stream.ofSource body).abort.2 })

end Upload

namespace Download

open Depot.Action (Shadows)

variable {ρ ι ω κ : Type} (h : Hooks ρ ι ω κ) (settings : Settings) (session : Session) (input : ι)

theorem shadows_streamOut : Shadows Journaled.own id
    (streamOut h.watched session input) (streamOut h session input) := by
  rw [streamOut, streamOut]
  split
  · exact fun _ => rfl
  · refine (Action.shadows_watch (fun r => .payload (r.map fun _ => ())) (h.payload input)).bind fun source => ?_
    refine (Action.shadows_watch .payloadFields (h.payloadFields input)).bind fun fields => ?_
    dsimp only [id]
    split
    · exact Action.shadows_ofExcept (.error _)
    · exact Action.shadows_pure id _

/-- The outcome of a program without what was written down. -/
def bare (x : Ending × Journaled ρ ω) : Ending × ρ := (x.1, x.2.own)

theorem finish_watched (r : Except Trouble Answer × Journaled ρ ω) :
    finish h settings session input (r.1, r.2.own) = bare <$> finish h.watched settings session input r := by
  have hend (ending : Ending) (t : Journaled ρ ω) :
      (h.release.start t.own >>= fun x => pure (ending.andThen x.1, x.2) : Program (Ending × ρ)) =
        bare <$> (h.watched.release.start t >>= fun x => pure (ending.andThen x.1, x.2)) := by
    rw [Action.shadows_release h t, bind_map_left, map_bind]
    congr 1
    funext x
    obtain ⟨_ | _, _⟩ := x <;> rfl
  obtain ⟨(e | m) | a, t⟩ := r
  · have hfields : Shadows (Journaled.own (ω := ω)) id (h.watched.errorFields input e.status) _ :=
      Action.shadows_watch (.errorFields e.status) (h.errorFields input e.status)
    simp only [finish, hfields t, bind_map_left, map_bind]
    congr 1
    funext x
    obtain ⟨(e' | m) | a, t⟩ := x <;> exact (hend _ t).trans (map_bind ..)
  · exact hend (.crashed m) t
  · exact hend (.answered a) t

theorem pull_watched (request : Headers) (resource : ρ) : pull h settings session input request resource =
    bare <$> pull h.watched settings session input request ⟨resource, []⟩ := by
  have hattempt : Shadows (Journaled.own (ω := ω)) id
      (do if ← h.watched.readable input request then streamOut h.watched session input
          else Action.refuse (.notFound "Item not found"))
      (do if ← h.readable input request then streamOut h session input
          else Action.refuse (.notFound "Item not found")) := by
    refine (Action.shadows_watch .readable (h.readable input request)).bind fun there => ?_
    cases there with
    | true => exact shadows_streamOut h session input
    | false => exact fun _ => rfl
  rw [pull, pull, hattempt ⟨resource, []⟩, bind_map_left, map_bind]
  congr 1
  funext x
  rw [Except.map_id]
  exact finish_watched h settings session input x

theorem pullList_watched (resource : ρ) : pullList h settings session input resource =
    bare <$> pullList h.watched settings session input ⟨resource, []⟩ := by
  rw [pullList, pullList, shadows_streamOut h session input ⟨resource, []⟩, bind_map_left, map_bind]
  congr 1
  funext x
  rw [Except.map_id]
  exact finish_watched h settings session input x

end Download

end Depot
