import Depot.Proofs.Pipeline

/-!
# The parties of a stream

A stream in use has one reader and any number of others who wait for it, give up on it or drain it.
Each section that one of them spends under a lock is one step: looking at the barrier, working at the
stages, firing the barrier. A reader that works at the stages keeps them to itself until it has
fired, and a drain comes to them only after it has given up on the transfer.

`Inv` is what holds whatever the order of steps. It ties the barrier, the stages and the reader to
each other, and what the reader was given to the source.

## Main definitions

* `Parties`, `Parties.step` — a stream with its parties, and one step of one of them.
* `Parties.Later` — what can be reached from a state by any steps.
* `Parties.Whole` — the reader was given the whole output of the stages.

## Main results

* `Parties.inv_step` — every step keeps the invariant.
* `Parties.Later.inv` — the invariant holds of everything that can be reached from the start.
-/

namespace Depot

/-- What a barrier that completed says of a plaintext. -/
def Barrier.completing (st : Stages) (plain : Bytes) : Barrier :=
  .completed plain.length (if st.digest then some (Sha256.digest plain) else none)

/-- What the tap of stages behind their end has counted. -/
theorem Pipeline.Done.completed {st : Stages} {wire plain given : Bytes} {p : Pipeline}
    (h : p.Done st wire plain given) : Barrier.completed p.tap.bytes p.tap.digest = .completing st plain := by
  rw [h.tap]
  simp [Barrier.completing]

theorem Barrier.failed_of_fired {b : Barrier} (hp : b ≠ .pending) (hc : b.isComplete ≠ true) :
    ∃ f, b = .failed f := by
  cases b with
  | pending => exact (hp rfl).elim
  | completed n d => exact (hc rfl).elim
  | failed f => exact ⟨f, rfl⟩

namespace Stream

/-! ## Sections under a lock -/

section Sections

variable {s s' : Stream} {st : Stages} {wire tapped given : Bytes} {n : Nat} {r : ReadResult}

theorem fire_of_pending (h : s.barrier = .pending) (b : Barrier) : s.fire b = { s with barrier := b } := by
  rw [fire, h]

theorem fire_of_fired (h : s.barrier ≠ .pending) (b : Barrier) : s.fire b = s := by
  rw [fire]
  split
  · contradiction
  · rfl

@[simp] theorem pipeline_fire (s : Stream) (b : Barrier) : (s.fire b).pipeline = s.pipeline := by
  rw [fire]
  split <;> rfl

theorem barrier_fire_ne_pending {b : Barrier} (hb : b ≠ .pending) : (s.fire b).barrier ≠ .pending := by
  by_cases h : s.barrier = .pending
  · rwa [fire_of_pending h]
  · rwa [fire_of_fired h]

/-- Whoever stops waiting for a stream leaves it fired. -/
theorem waitFor_stream (s : Stream) (ms : Nat) : (s.waitFor ms).2 = s.fire (.failed .timedOut) := by
  cases h : s.barrier <;> simp [waitFor, outcome?, fire, h]

theorem work_of_finished (h : s.pipeline.finished = true) (n : Nat) : s.work n = (.ok [], none, s) := by
  rw [work, if_pos h]

theorem barrier_work (s : Stream) (n : Nat) : (s.work n).2.2.barrier = s.barrier := by
  rw [work]
  split
  · rfl
  · split <;> split <;> rfl

/-- What the reader fires says that an error, or that the end was found. -/
theorem work_fires {b : Barrier} (h : (s.work n).2.1 = some b) :
    (∃ e f, (s.work n).1 = .error e ∧ b = .failed f) ∨
      ((s.work n).1 = .ok [] ∧ b.isComplete = true) := by
  rw [work] at h ⊢
  split at h
  · cases h
  · rename_i hopen
    rw [if_neg hopen]
    split at h <;> split at h
    · cases h
      exact .inr ⟨by simp [*], rfl⟩
    · cases h
    · cases h
    · cases h
      rename_i e p hread he
      exact .inl ⟨e, _, by simp [he], rfl⟩

/-- Open stages never bring nothing quietly. -/
theorem work_quiet (hopen : s.pipeline.finished = false) (hr : (s.work n).1 = .ok [])
    (hb : (s.work n).2.1 = none) : n = 0 := by
  rw [work, if_neg (by simp [hopen])] at hr hb
  split at hr <;> split at hr
  · simp_all
  · simp_all
  · cases hr
  · cases hr

/-- How the reader's work at stages under way can end: they are still under way, they are done, or
they failed. -/
inductive Worked (st : Stages) (wire given : Bytes) (n : Nat) : ReadResult → Option Barrier → Pipeline → Prop
  | more {r : ReadResult} {p : Pipeline} {tapped : Bytes} (hfinished : p.finished = false)
      (hmore : ¬ (r = .ok [] ∧ n ≠ 0)) (hflows : p.build.Flows st wire tapped (given ++ r.bytes)) :
      Worked st wire given n r none p
  | done {p : Pipeline} {plain : Bytes} (hfinished : p.finished = true) (hn : n ≠ 0)
      (hdone : p.Done st wire plain given) :
      Worked st wire given n (.ok []) (some (.completing st plain)) p
  | failed {p : Pipeline} (hfinished : p.finished = true) (e : ReadError) :
      Worked st wire given n (.error e) (some (.failed (.read e.codec e.message))) p

/-- The reader's work at stages under way. -/
theorem worked (h : s.pipeline.build.Flows st wire tapped given) (hopen : s.pipeline.finished = false)
    (n : Nat) : (s.work n).2.2.barrier = s.barrier ∧
      Worked st wire given n (s.work n).1 (s.work n).2.1 (s.work n).2.2.pipeline := by
  rw [work, if_neg (by simp [hopen])]
  generalize hread : s.pipeline.build.readBuilt n = x
  obtain ⟨r, p⟩ := x
  obtain ⟨tapped', hmore, hend⟩ := h.readBuilt hread
  have hfinished : p.finished = false := by
    rw [(Pipeline.kept_readBuilt hread).finished, Pipeline.finished_build, hopen]
  cases r with
  | ok out =>
    by_cases hout : out.isEmpty = true ∧ n ≠ 0
    · obtain rfl := List.isEmpty_iff.mp hout.1
      have hdone := hend rfl hout.2
      simp only [if_pos hout, hdone.completed]
      exact ⟨trivial, .done rfl hout.2 ⟨hdone.plain, hdone.tap, hdone.output⟩⟩
    · simp only [if_neg hout]
      have hflows := hmore (by simpa using hout)
      exact ⟨trivial, .more hfinished (by simpa using hout)
        (by rwa [Pipeline.build_of_built hflows.built])⟩
  | error e =>
    by_cases he : e.kind.isTransient = true
    · simp only [if_pos he]
      have hflows := hmore (by simp)
      exact ⟨trivial, .more hfinished (by simp) (by rwa [Pipeline.build_of_built hflows.built])⟩
    · simp only [if_neg he]
      exact ⟨trivial, .failed rfl e⟩

end Sections

end Stream

/-- Where the reader of a stream stands. -/
inductive Reader where
  /-- Between two reads. -/
  | idle
  /-- Let through by the barrier, with a buffer of `n` bytes. -/
  | admitted (n : Nat)
  /-- Done with the stages, with an answer and with what is still to be fired. -/
  | leaving (n : Nat) (r : ReadResult) (b : Option Barrier)
  /-- It let go of the stream. -/
  | gone

/-- Whether the reader has the stages to itself. -/
def Reader.atStages : Reader → Bool
  | .leaving _ _ _ => true
  | _ => false

/-- A stream with its parties. -/
structure Parties where
  stream : Stream
  reader : Reader := .idle
  /-- How many drains have given up on the transfer and not come to the stages yet. -/
  drains : Nat := 0
  /-- What the reader was given. -/
  received : Bytes := []
  /-- How many bytes went to drains. -/
  drained : Nat := 0
  /-- Whether a drain ever found stages that were not finished. -/
  seized : Bool := false

/-- A step of one of the parties. -/
inductive Move where
  /-- The reader begins a read with a buffer of `n` bytes and looks at the barrier. -/
  | look (n : Nat)
  /-- The reader works at the stages. -/
  | work
  /-- The reader fires the barrier, if there is reason to, and its read is over. -/
  | settle
  | release
  /-- Somebody has waited for `ms` milliseconds, or until the barrier was fired. -/
  | wait (ms : Nat)
  | digest
  | abort
  /-- Somebody begins to drain, and gives up on the transfer. -/
  | drain
  /-- A drain discards what it can get in so many reads. -/
  | discard (reads : Nat)

/-- What the party that makes a step gets to know. -/
inductive Reaction where
  | nothing
  | read (r : ReadResult)
  | waited (r : Except TransferError Nat)
  | digest (r : Except TransferError String)
  | aborted (b : Bool)

namespace Parties

/-- A stream that nobody has touched. -/
def start (source : Source) (st : Stages) : Parties :=
  { stream := { pipeline := { source := source, stages := st } } }

/-- Make a step, if the party is where it can make it. -/
def step (s : Parties) : Move → Option (Reaction × Parties)
  | .look n =>
    match s.reader, s.stream.mayRead with
    | .idle, .ok () => some (.nothing, { s with reader := .admitted n })
    | .idle, .error e => some (.read (.error e), s)
    | _, _ => none
  | .work =>
    match s.reader with
    | .admitted n =>
      let (r, b, stream) := s.stream.work n
      some (.nothing, { s with
        stream := stream, reader := .leaving n r b, received := s.received ++ r.bytes })
    | _ => none
  | .settle =>
    match s.reader with
    | .leaving _ r b =>
      some (.read r, { s with stream := b.elim s.stream s.stream.fire, reader := .idle })
    | _ => none
  | .release =>
    match s.reader with
    | .idle => some (.nothing, { s with stream := s.stream.release, reader := .gone })
    | _ => none
  | .wait ms => some (.waited (s.stream.waitFor ms).1, { s with stream := (s.stream.waitFor ms).2 })
  | .digest => some (.digest s.stream.digest, s)
  | .abort => some (.aborted s.stream.abort.1, { s with stream := s.stream.abort.2 })
  | .drain =>
    some (.nothing, { s with stream := s.stream.fire (.failed .aborted), drains := s.drains + 1 })
  | .discard reads =>
    if s.drains = 0 ∨ s.reader.atStages then none
    else
      let ((total, _), stream) := s.stream.discard reads
      some (.nothing, { s with
        stream := stream, drains := s.drains - 1, drained := s.drained + total
        seized := s.seized || !s.stream.pipeline.finished })

/-- What can be reached by any steps. -/
inductive Later (s : Parties) : Parties → Prop
  | refl : Later s s
  | step {t u : Parties} {m : Move} {a : Reaction} (h : Later s t) (hstep : t.step m = some (a, u)) :
      Later s u

theorem Later.trans {s t u : Parties} (h₁ : Later s t) (h₂ : Later t u) : Later s u := by
  induction h₂ with
  | refl => exact h₁
  | step _ hstep ih => exact .step ih hstep

/-- The state after some steps, if they can be made one after the other. -/
def play (s : Parties) : List Move → Option Parties
  | [] => some s
  | m :: rest => (s.step m).bind fun x => x.2.play rest

theorem later_play {s t : Parties} {moves : List Move} (h : s.play moves = some t) : Later s t := by
  induction moves generalizing s with
  | nil =>
    cases h
    exact .refl
  | cons m rest ih =>
    obtain ⟨⟨a, u⟩, hstep, hrest⟩ := Option.bind_eq_some_iff.mp h
    exact (Later.step .refl hstep).trans (ih hrest)

/-- The barrier of the stream. -/
abbrev barrier (s : Parties) : Barrier := s.stream.barrier

/-- Whether the stages have come to their end, or to an error. -/
abbrev finished (s : Parties) : Bool := s.stream.pipeline.finished

/-- A pull is the reader's work and its end, with nothing in between. -/
theorem pull_steps {s : Parties} {n : Nat} (h : s.reader = .admitted n) :
    (s.step .work).bind (fun x => x.2.step .settle) =
      some (.read (s.stream.pull n).1, { s with
        stream := (s.stream.pull n).2, reader := .idle
        received := s.received ++ ReadResult.bytes (s.stream.pull n).1 }) := by
  simp only [step, h]
  rfl

/-- Draining is giving up on the transfer, and discarding what is left. -/
theorem drain_steps {s : Parties} (h : s.reader.atStages = false) :
    ((s.step .drain).bind fun x => x.2.step (.discard s.stream.pipeline.weight)).map (·.2.stream) =
      some s.stream.drain.2 := by
  simp only [step, h, Option.bind_some]
  simp [Stream.drain]

/-! ## The invariant -/

variable {source : Source} {st : Stages} {wire : Bytes} {s t : Parties}

/-- The reader was given the whole output of the stages. -/
def Whole (st : Stages) (wire : Bytes) (s : Parties) : Prop :=
  ∃ plain, st.Plain wire plain ∧ s.received = st.output plain

/-- The reader brought the stages to their end, which is what `b` says; no drain came before it. -/
def Ended (st : Stages) (wire : Bytes) (s : Parties) (b : Barrier) : Prop :=
  s.finished = true ∧ s.seized = false ∧
    ∃ plain, s.stream.pipeline.Done st wire plain s.received ∧ b = .completing st plain

theorem Ended.whole {b : Barrier} (h : Ended st wire s b) : s.Whole st wire := by
  obtain ⟨-, -, plain, hdone, -⟩ := h
  exact ⟨plain, hdone.plain, hdone.output⟩

/-- What holds whatever the order of steps. -/
structure Inv (st : Stages) (wire : Bytes) (s : Parties) : Prop where
  drains : s.drains ≠ 0 → s.barrier ≠ .pending
  seized : s.seized = true → ∃ f, s.barrier = .failed f
  spared : s.seized = false → s.drained = 0
  flows : s.seized = false → s.finished = false →
    ∃ tapped, s.stream.pipeline.build.Flows st wire tapped s.received
  completed : s.barrier.isComplete = true → s.Ended st wire s.barrier
  /-- A reader behind a stream that completed found its end. -/
  behindEnd : s.barrier.isComplete = true → ∀ n r b, s.reader = .leaving n r b → r = .ok [] ∧ b = none
  /-- What a reader is about to fire. -/
  firing : ∀ n r b, s.reader = .leaving n r (some b) →
    (∃ e f, r = .error e ∧ b = .failed f) ∨
      (r = .ok [] ∧ b.isComplete = true ∧ (s.seized = false → s.Ended st wire b))
  finished : s.finished = true → s.barrier ≠ .pending ∨ ∃ n r b, s.reader = .leaving n r (some b)
  /-- A read that brings nothing and fires nothing found the stages finished. -/
  quiet : ∀ n, s.reader = .leaving n (.ok []) none → n ≠ 0 → s.finished = true
  /-- A reader at finished stages comes after a drain, or was given everything. -/
  whole : ∀ n, s.reader = .admitted n ∨ s.reader = .leaving n (.ok []) none → s.finished = true →
    s.seized = true ∨ s.Whole st wire

theorem inv_start (source : Source) (st : Stages) : Inv st source.bytes (start source st) where
  drains h := (h rfl).elim
  seized h := by cases h
  spared _ := rfl
  flows _ _ := ⟨[], Pipeline.flows_build source st⟩
  completed h := by cases h
  behindEnd h := by cases h
  firing _ _ _ h := by cases h
  finished h := by cases h
  quiet _ h := by cases h
  whole _ h := by rcases h with h | h <;> cases h

/-- The parties once the reader, with a buffer of `n` bytes, has worked at the stages. -/
def worked (s : Parties) (n : Nat) : Parties :=
  { s with
    stream := (s.stream.work n).2.2
    reader := .leaving n (s.stream.work n).1 (s.stream.work n).2.1
    received := s.received ++ ReadResult.bytes (s.stream.work n).1 }

namespace Inv

/-- Giving up on the transfer, for whatever reason. -/
theorem fail (h : Inv st wire s) (f : Failure) :
    Inv st wire { s with stream := s.stream.fire (.failed f) } := by
  by_cases hb : s.barrier = .pending
  · rw [Stream.fire_of_pending hb]
    exact {
      drains := fun _ => by simp [barrier]
      seized := fun _ => ⟨f, rfl⟩
      spared := h.spared
      flows := h.flows
      completed := fun hc => by cases hc
      behindEnd := fun hc => by cases hc
      firing := h.firing
      finished := fun _ => .inl (by simp [barrier])
      quiet := h.quiet
      whole := h.whole }
  · rwa [Stream.fire_of_fired hb]

/-- The reader begins a read. -/
theorem look (h : Inv st wire s) (hs : s.reader = .idle) (hmay : s.stream.mayRead = .ok ()) (n : Nat) :
    Inv st wire { s with reader := .admitted n } where
  drains := h.drains
  seized := h.seized
  spared := h.spared
  flows := h.flows
  completed := h.completed
  behindEnd _ _ _ _ hr := by cases hr
  firing _ _ _ hr := by cases hr
  finished hf := by
    rcases h.finished hf with hb | ⟨_, _, _, hr⟩
    · exact .inl hb
    · rw [hs] at hr
      cases hr
  quiet _ hr := by cases hr
  whole _ _ hf := by
    -- the barrier was fired, and not with a failure
    rcases h.finished hf with hb | ⟨_, _, _, hr⟩
    · refine .inr (h.completed ?_).whole
      have hfired : s.stream.barrier ≠ .pending := hb
      rw [Stream.mayRead] at hmay
      cases hbarrier : s.stream.barrier <;> simp_all [Barrier.failure?, Barrier.isComplete]
    · rw [hs] at hr
      cases hr

theorem not_isComplete (h : Inv st wire s) (hf : s.finished = false) : s.barrier.isComplete ≠ true :=
  fun hc => Bool.false_ne_true (hf.symm.trans (h.completed hc).1)

/-- The reader comes to stages that are finished. -/
theorem work_finished (h : Inv st wire s) {n : Nat} (hs : s.reader = .admitted n) (hf : s.finished = true) :
    Inv st wire (s.worked n) := by
  rw [worked, Stream.work_of_finished hf]
  exact {
    drains := h.drains
    seized := h.seized
    spared := h.spared
    flows := fun _ hopen => (Bool.false_ne_true (hopen.symm.trans hf)).elim
    completed := fun hc => by simpa [Ended] using h.completed hc
    behindEnd := fun _ _ _ _ hr => by cases hr; exact ⟨rfl, rfl⟩
    firing := fun _ _ _ hr => by cases hr
    finished := fun _ => by
      rcases h.finished hf with hb | ⟨_, _, _, hr⟩
      · exact .inl hb
      · rw [hs] at hr
        cases hr
    quiet := fun _ _ _ => hf
    whole := fun _ _ _ => by simpa [Whole] using h.whole n (.inl hs) hf }

/-- A reader that leaves stages that were open brings nothing quietly only if it had no room. -/
theorem quiet_worked (hf : s.finished = false) {n k : Nat} (hr : (s.worked n).reader = .leaving k (.ok []) none) :
    k = 0 := by
  injection hr with hk hr hb
  exact hk ▸ Stream.work_quiet hf hr hb

/-- The reader works at stages that a drain has come to. The barrier failed before, so it does not matter what the
reader finds. -/
theorem work_seized (h : Inv st wire s) (n : Nat) (hf : s.finished = false) (hseized : s.seized = true) :
    Inv st wire (s.worked n) := by
  have hincomplete := h.not_isComplete hf
  have hbarrier : (s.worked n).barrier = s.barrier := Stream.barrier_work s.stream n
  obtain ⟨f, hfailed⟩ := h.seized hseized
  exact {
    drains := fun _ => by rw [hbarrier, hfailed]; simp
    seized := fun _ => ⟨f, hbarrier.trans hfailed⟩
    spared := fun hs => (Bool.false_ne_true (hs.symm.trans hseized)).elim
    flows := fun hs => (Bool.false_ne_true (hs.symm.trans hseized)).elim
    completed := fun hc => (hincomplete (hbarrier ▸ hc)).elim
    behindEnd := fun hc => (hincomplete (hbarrier ▸ hc)).elim
    firing := fun k r b hr => by
      injection hr with _ hr hb
      rcases Stream.work_fires hb with ⟨e, f, he, hb⟩ | ⟨hnil, hb⟩
      · exact .inl ⟨e, f, hr ▸ he, hb⟩
      · exact .inr ⟨hr ▸ hnil, hb, fun hs => (Bool.false_ne_true (hs.symm.trans hseized)).elim⟩
    finished := fun _ => .inl (by rw [hbarrier, hfailed]; simp)
    quiet := fun k hr hk => (hk (quiet_worked hf hr)).elim
    whole := fun _ _ _ => .inl hseized }

/-- The reader works at stages under way. -/
theorem work_underWay (h : Inv st wire s) (n : Nat) (hf : s.finished = false) (hseized : s.seized = false) :
    Inv st wire (s.worked n) := by
  have hincomplete := h.not_isComplete hf
  have hquiet (k : Nat) (hr : (s.worked n).reader = .leaving k (.ok []) none) : k = 0 := quiet_worked hf hr
  obtain ⟨tapped, hflows⟩ := h.flows hseized hf
  obtain ⟨hbarrier, hworked⟩ := Stream.worked hflows hf n
  rw [worked] at hquiet ⊢
  generalize s.stream.work n = x at hbarrier hquiet hworked
  obtain ⟨r, b, pipeline, _, started⟩ := x
  obtain rfl : _ = s.barrier := hbarrier
  refine {
    drains := h.drains
    seized := fun hs => (Bool.false_ne_true (hseized.symm.trans hs)).elim
    spared := fun _ => h.spared hseized
    flows := fun _ hopen => ?_
    completed := fun hc => (hincomplete hc).elim
    behindEnd := fun hc => (hincomplete hc).elim
    firing := fun k r b hr => ?_
    finished := fun hfinished => ?_
    quiet := fun k hr hk => (hk (hquiet k hr)).elim
    whole := fun k hr hfinished => ?_ }
  · cases hworked with
    | more _ _ hflows => exact ⟨_, hflows⟩
    | done hfinished => exact (Bool.false_ne_true (hopen.symm.trans hfinished)).elim
    | failed hfinished => exact (Bool.false_ne_true (hopen.symm.trans hfinished)).elim
  · cases hworked with
    | more => cases hr
    | done hfinished hn hdone =>
      cases hr
      refine .inr ⟨rfl, rfl, fun hs => ⟨hfinished, hs, _, ?_, rfl⟩⟩
      simpa using hdone
    | failed hfinished e =>
      cases hr
      exact .inl ⟨_, _, rfl, rfl⟩
  · cases hworked with
    | more hopen => exact (Bool.false_ne_true (hopen.symm.trans hfinished)).elim
    | done => exact .inr ⟨_, _, _, rfl⟩
    | failed => exact .inr ⟨_, _, _, rfl⟩
  · cases hworked with
    | more hopen => exact (Bool.false_ne_true (hopen.symm.trans hfinished)).elim
    | done => rcases hr with hr | hr <;> cases hr
    | failed => rcases hr with hr | hr <;> cases hr

/-- The reader works at the stages. -/
theorem work (h : Inv st wire s) {n : Nat} (hs : s.reader = .admitted n) : Inv st wire (s.worked n) := by
  cases hf : s.finished with
  | true => exact h.work_finished hs hf
  | false =>
    cases hseized : s.seized with
    | true => exact h.work_seized n hf hseized
    | false => exact h.work_underWay n hf hseized

/-- The reader is between two reads, or has let go of the stream. -/
theorem rest (h : Inv st wire s) {reader : Reader} (hr : reader = .idle ∨ reader = .gone)
    (hb : s.finished = true → s.barrier ≠ .pending) : Inv st wire { s with reader := reader } where
  drains := h.drains
  seized := h.seized
  spared := h.spared
  flows := h.flows
  completed := h.completed
  behindEnd _ _ _ _ hs := by rcases hr with rfl | rfl <;> cases hs
  firing _ _ _ hs := by rcases hr with rfl | rfl <;> cases hs
  finished hf := .inl (hb hf)
  quiet _ hs := by rcases hr with rfl | rfl <;> cases hs
  whole _ hs := by rcases hr with rfl | rfl <;> rcases hs with hs | hs <;> cases hs

/-- The barrier completes. -/
theorem complete (h : Inv st wire s) (hp : s.barrier = .pending) {b : Barrier}
    (hb : b.isComplete = true) (hended : s.Ended st wire b) :
    Inv st wire { s with stream := s.stream.fire b, reader := .idle } := by
  rw [Stream.fire_of_pending hp]
  have hne : b ≠ .pending := by rintro rfl; cases hb
  exact {
    drains := fun _ => hne
    seized := fun hs => (Bool.false_ne_true (hended.2.1.symm.trans hs)).elim
    spared := h.spared
    flows := h.flows
    completed := fun _ => hended
    behindEnd := fun _ _ _ _ hr => by cases hr
    firing := fun _ _ _ hr => by cases hr
    finished := fun _ => .inl hne
    quiet := fun _ hr => by cases hr
    whole := fun _ hr => by rcases hr with hr | hr <;> cases hr }

/-- The reader fires the barrier, and its read is over. -/
theorem settle (h : Inv st wire s) {n : Nat} {r : ReadResult} {b : Option Barrier}
    (hs : s.reader = .leaving n r b) :
    Inv st wire { s with stream := b.elim s.stream s.stream.fire, reader := .idle } := by
  cases b with
  | none =>
    refine h.rest (.inl rfl) fun hf => ?_
    rcases h.finished hf with hb | ⟨_, _, _, hr⟩
    · exact hb
    · rw [hs] at hr
      cases hr
  | some b =>
    by_cases hp : s.barrier = .pending
    · rcases h.firing n r b hs with ⟨_, f, -, rfl⟩ | ⟨-, hb, hended⟩
      · exact (h.fail f).rest (.inl rfl) fun _ => Stream.barrier_fire_ne_pending (by simp)
      · refine h.complete hp hb (hended ?_)
        cases hseized : s.seized with
        | false => rfl
        | true =>
          obtain ⟨f, hfailed⟩ := h.seized hseized
          rw [hp] at hfailed
          cases hfailed
    · rw [Option.elim, Stream.fire_of_fired hp]
      exact h.rest (.inl rfl) fun _ => hp

/-- A drain comes to the stages. -/
theorem discard (h : Inv st wire s) (hd : s.drains ≠ 0) (hs : s.reader.atStages = false) (reads : Nat) :
    Inv st wire { s with
      stream := (s.stream.discard reads).2, drains := s.drains - 1
      drained := s.drained + (s.stream.discard reads).1.1
      seized := s.seized || !s.stream.pipeline.finished } := by
  have hfired := h.drains hd
  cases hf : s.stream.pipeline.finished with
  | true =>
    rw [Stream.discard, if_pos hf]
    simp only [Bool.not_true, Bool.or_false, Nat.add_zero]
    exact { h with drains := fun _ => hfired }
  | false =>
    have hincomplete := h.not_isComplete hf
    have hbarrier : (s.stream.discard reads).2.barrier = s.barrier := by
      rw [Stream.discard, if_neg (by simp [hf])]
    simp only [Bool.not_false, Bool.or_true]
    exact {
      drains := fun _ => by rw [barrier, hbarrier]; exact hfired
      seized := fun _ => by
        rw [barrier, hbarrier]
        exact Barrier.failed_of_fired hfired hincomplete
      spared := fun hs => by cases hs
      flows := fun hs => by cases hs
      completed := fun hc => (hincomplete (hbarrier ▸ hc)).elim
      behindEnd := fun hc => (hincomplete (hbarrier ▸ hc)).elim
      firing := fun _ _ _ hr => by
        have hr : s.reader = _ := hr
        rw [hr] at hs
        cases hs
      finished := fun _ => .inl (by rw [barrier, hbarrier]; exact hfired)
      quiet := fun _ hr => by
        have hr : s.reader = _ := hr
        rw [hr] at hs
        cases hs
      whole := fun _ _ _ => .inl rfl }

end Inv

/-- Every step keeps the invariant. -/
theorem inv_step {m : Move} {a : Reaction} (h : Inv st wire s) (hstep : s.step m = some (a, t)) :
    Inv st wire t := by
  cases m with
  | look n =>
    simp only [step] at hstep
    split at hstep
    · rename_i hs hmay
      cases hstep
      exact h.look hs hmay n
    · cases hstep
      exact h
    · cases hstep
  | work =>
    simp only [step] at hstep
    split at hstep
    · rename_i n hs
      cases hstep
      exact h.work hs
    · cases hstep
  | settle =>
    simp only [step] at hstep
    split at hstep
    · rename_i hs
      cases hstep
      exact h.settle hs
    · cases hstep
  | release =>
    simp only [step] at hstep
    split at hstep
    · cases hstep
      exact (h.fail .abandoned).rest (.inr rfl) fun _ => Stream.barrier_fire_ne_pending (by simp)
    · cases hstep
  | wait ms =>
    simp only [step, Stream.waitFor_stream] at hstep
    cases hstep
    exact h.fail .timedOut
  | digest =>
    cases hstep
    exact h
  | abort =>
    cases hstep
    exact h.fail .aborted
  | drain =>
    cases hstep
    exact { h.fail .aborted with drains := fun _ => Stream.barrier_fire_ne_pending (by simp) }
  | discard reads =>
    simp only [step] at hstep
    split at hstep
    · cases hstep
    · rename_i hready
      simp only [not_or, Bool.not_eq_true] at hready
      cases hstep
      exact h.discard hready.1 hready.2 reads

/-- The invariant holds of everything that can be reached from the start. -/
theorem Later.inv (h : Later (start source st) s) : Inv st source.bytes s := by
  induction h with
  | refl => exact inv_start source st
  | step _ hstep ih => exact inv_step ih hstep

end Parties

end Depot
