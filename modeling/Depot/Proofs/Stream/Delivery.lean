import Depot.Proofs.Stream.EndOfStream
import Depot.Stream.Reading

/-!
# Delivering a payload

A stream that nobody but its reader touches, as long as the reader has not let go of it. Whatever the
reader reads, in pieces of whatever size, adds to what it was given; and when it is told of the end, the
transfer is complete, and it was given everything.

## Main results

* `Stream.Held.read`, `Stream.Held.gather` — reading once, and reading on and on.
* `Stream.Held.completed` — what a completed transfer has delivered.
-/

namespace Depot.Stream

open Parties

variable {source : Source} {st : Stages} {s s' : Stream} {got : Bytes} {n size : Nat} {r : ReadResult}

/-- A stream over a source, in the hands of a reader that was given `got`. -/
def Held (source : Source) (st : Stages) (s : Stream) (got : Bytes) : Prop :=
  ∃ p : Parties, Later (start source st) p ∧ p.stream = s ∧ p.reader = .idle ∧ p.received = got ∧
    p.seized = false

theorem held_start (source : Source) (st : Stages) :
    Held source st { pipeline := { source := source, stages := st } } [] :=
  ⟨start source st, .refl, rfl, rfl, rfl, rfl⟩

/-- What a completed transfer has delivered. -/
theorem Held.completed (h : Held source st s got) (hs : s.barrier.isComplete = true) :
    ∃ plain, st.Plain source.bytes plain ∧ got = st.output plain ∧ s.barrier = .completing st plain := by
  obtain ⟨p, hlater, rfl, -, rfl, -⟩ := h
  obtain ⟨-, -, plain, hdone, hb⟩ := hlater.inv.completed hs
  exact ⟨plain, hdone.plain, hdone.output, hb⟩

theorem kind_readError (f : Failure) : f.readError.kind ≠ .pending := by
  rcases f with _ | _ | _ | ⟨_ | _, _⟩ <;> simp [Failure.readError]

/-- What a read leaves of a stream in the hands of a reader. -/
structure Step (source : Source) (st : Stages) (got : Bytes) (n : Nat) (s : Stream) (r : ReadResult)
    (s' : Stream) : Prop where
  held : Held source st s' (got ++ r.bytes)
  /-- The end is that of a completed transfer. -/
  ended : r = .ok [] → n ≠ 0 → s'.barrier.isComplete = true
  /-- Only a transfer that is under way has to be waited for. -/
  waits : ∀ e, r = .error e → e.kind = .pending → s'.barrier = .pending
  fired : s.barrier ≠ .pending → s'.barrier = s.barrier

theorem isComplete_of_fired (h : s.barrier ≠ .pending → s'.barrier = s.barrier)
    (hs : s.barrier.isComplete = true) : s'.barrier.isComplete = true := by
  rw [h]
  · exact hs
  · rintro hb
    rw [hb] at hs
    cases hs

/-- A transfer has completed if it had before the read, or if the read found the end. -/
theorem Step.isComplete (h : Step source st got n s r s')
    (hs : s.barrier.isComplete = true ∨ r = .ok [] ∧ n ≠ 0) : s'.barrier.isComplete = true := by
  obtain hs | ⟨hr, hn⟩ := hs
  · exact isComplete_of_fired h.fired hs
  · exact h.ended hr hn

/-- A read that has to wait finds open stages, and fires nothing. -/
theorem work_waits {e : ReadError} (hr : (s.work n).1 = .error e) (he : e.kind = .pending) :
    s.pipeline.finished = false ∧ (s.work n).2.1 = none := by
  rw [work] at hr ⊢
  split at hr
  · cases hr
  · rename_i hopen
    rw [if_neg hopen]
    refine ⟨by simpa using hopen, ?_⟩
    split at hr <;> split at hr
    · cases hr
    · cases hr
    · rename_i htransient
      cases hr
      rw [if_pos htransient]
    · rename_i htransient
      cases hr
      exact absurd (by simp [he, ErrorKind.isTransient]) htransient

theorem Held.pull (h : Held source st s got) (hs : s.barrier.failure? = none) (n : Nat) :
    Step source st got n s (s.pull n).1 (s.pull n).2 := by
  obtain ⟨p, hlater, rfl, hidle, rfl, hseized⟩ := h
  let p₁ : Parties := { p with reader := .admitted n }
  let p₂ : Parties := { p with
    stream := (p.stream.work n).2.2
    reader := .leaving n (p.stream.work n).1 (p.stream.work n).2.1
    received := p.received ++ ReadResult.bytes (p.stream.work n).1 }
  let p₃ : Parties := { p with
    stream := (p.stream.pull n).2, reader := .idle
    received := p.received ++ ReadResult.bytes (p.stream.pull n).1 }
  have hlook : p.step (.look n) = some (.nothing, p₁) := by simp [step, hidle, mayRead, hs, p₁]
  have hwork : p₁.step .work = some (.nothing, p₂) := rfl
  have hsettle : p₂.step .settle = some (.read (p.stream.work n).1, p₃) := rfl
  have hlater₂ : p.Later p₂ := (Later.refl.step hlook).step hwork
  have hlater₃ : p.Later p₃ := hlater₂.step hsettle
  refine ⟨⟨p₃, hlater.trans hlater₃, rfl, rfl, rfl, hseized⟩, fun hend hn => ?_,
    fun e he hkind => ?_, hlater₃.barrier_eq⟩
  · have hr : p₂.reader = .leaving n (.ok []) (p.stream.work n).2.1 := congrArg (Reader.leaving n · _) hend
    refine ((hlater.trans hlater₂).inv.isComplete_settle_iff hr hn).mpr ?_
    exact (congrArg Barrier.failure? (barrier_work p.stream n)).trans hs
  · obtain ⟨hopen, hnone⟩ := work_waits (n := n) he hkind
    have hpending : p.stream.barrier = .pending := by
      cases hb : p.stream.barrier with
      | pending => rfl
      | completed k d =>
        have hcomplete : p.stream.barrier.isComplete = true := by rw [hb]; rfl
        have hfinished : p.finished = true := (hlater.inv.completed hcomplete).1
        exact absurd (hopen.symm.trans hfinished) Bool.false_ne_true
      | failed f =>
        rw [hb] at hs
        cases hs
    have hpull : (p.stream.pull n).2 = (p.stream.work n).2.2 := by
      change (p.stream.work n).2.1.elim _ _ = _
      rw [hnone]
      rfl
    rw [hpull, barrier_work, hpending]

/-- Reading once. -/
theorem Held.read (h : Held source st s got) (hr : s.read n = (r, s')) :
    Step source st got n s r s' := by
  rw [Stream.read, mayRead] at hr
  split at hr
  · rename_i e hfailed
    split at hfailed
    · rename_i f hf
      cases hfailed
      obtain ⟨rfl, rfl⟩ := Prod.mk.inj hr
      refine ⟨by simpa using h, by simp, fun e he hkind => ?_, fun _ => rfl⟩
      cases he
      exact absurd hkind (kind_readError f)
    · cases hfailed
  · rename_i hok
    split at hok
    · cases hok
    · obtain ⟨rfl, rfl⟩ : (s.pull n).1 = r ∧ (s.pull n).2 = s' := by rw [hr]; exact ⟨rfl, rfl⟩
      exact h.pull ‹_› n

/-! ## Reading on and on -/

/-- What reading on leaves of a stream, of which `more` was read. -/
structure Gathered (source : Source) (st : Stages) (got : Bytes) (limit : Option Nat) (s : Stream)
    (more : Bytes) (x : Reading) : Prop where
  held : Held source st x.stream (got ++ more)
  /-- Short of its limit, reading on ends with the end. -/
  ended : x.error = none → (∀ l, limit = some l → more.length < l) → x.stream.barrier.isComplete = true
  waits : ∀ e, x.error = some e → e.kind = .pending → x.stream.barrier = .pending
  fired : s.barrier ≠ .pending → x.stream.barrier = s.barrier

theorem Gathered.isComplete {limit : Option Nat} {more : Bytes} {x : Reading}
    (h : Gathered source st got limit s more x)
    (hs : s.barrier.isComplete = true ∨ x.error = none ∧ ∀ l, limit = some l → more.length < l) :
    x.stream.barrier.isComplete = true := by
  obtain hs | ⟨herror, hshort⟩ := hs
  · exact isComplete_of_fired h.fired hs
  · exact h.ended herror hshort

theorem nextSize_ne_zero {limit : Option Nat} (hsize : size ≠ 0) (hlimit : limit ≠ some 0) :
    nextSize size limit ≠ 0 := by
  cases limit with
  | none => simpa [nextSize] using hsize
  | some l =>
    have hl : l ≠ 0 := fun h => hlimit (congrArg some h)
    simp only [nextSize, Option.getD_some]
    omega

/-- A first read, and reading on from there. -/
theorem Gathered.cons {limit : Option Nat} {more : Bytes} {x : Reading}
    (hstep : Step source st got n s r s')
    (h : Gathered source st (got ++ r.bytes) (limit.map (· - r.bytes.length)) s' more x) :
    Gathered source st got limit s (r.bytes ++ more) x where
  held := by simpa using h.held
  ended he hl := h.ended he fun l hlimit => by
    obtain ⟨k, rfl, rfl⟩ := Option.map_eq_some_iff.mp hlimit
    have := hl k rfl
    rw [List.length_append] at this
    omega
  waits := h.waits
  fired hs := (h.fired (by rwa [hstep.fired hs])).trans (hstep.fired hs)

theorem Held.gatherLoop {fuel : Nat} (limit : Option Nat) (acc : List Bytes) (h : Held source st s got)
    (hsize : size ≠ 0) : ∃ more,
      (gatherLoop size fuel limit acc s).bytes = acc.reverse.flatten ++ more ∧
        Gathered source st got limit s more (gatherLoop size fuel limit acc s) := by
  induction fuel generalizing limit acc s got with
  | zero =>
    refine ⟨[], by simp [Stream.gatherLoop], ⟨by simpa [Stream.gatherLoop] using h, ?_, ?_, fun _ => rfl⟩⟩
    · simp [Stream.gatherLoop]
    · rintro e he hkind
      simp [Stream.gatherLoop, Codec.stuck, Codec.raise] at he
      simp [← he] at hkind
  | succ fuel ih =>
    rw [Stream.gatherLoop]
    split
    · rename_i hlimit
      refine ⟨[], by simp, ⟨by simpa using h, fun _ hl => ?_, by simp, fun _ => rfl⟩⟩
      exact absurd (hl 0 hlimit) (Nat.lt_irrefl 0)
    · rename_i hlimit
      have hn := nextSize_ne_zero hsize hlimit
      split
      · rename_i s' hread
        have hstep := h.read hread
        exact ⟨[], by simp, hstep.held, fun _ _ => hstep.ended rfl hn, by simp, hstep.fired⟩
      · rename_i out s' _ hread
        have hstep := h.read hread
        obtain ⟨more, hbytes, hmore⟩ := ih (limit.map (· - out.length)) (out :: acc) hstep.held
        exact ⟨out ++ more, by simp [hbytes], .cons hstep hmore⟩
      · rename_i e s' hread
        have hstep := h.read hread
        split
        · obtain ⟨more, hbytes, hmore⟩ := ih limit acc hstep.held
          exact ⟨more, hbytes, .cons hstep (by simpa using hmore)⟩
        · refine ⟨[], by simp, by simpa using hstep.held, by simp, fun x hx hkind => ?_, hstep.fired⟩
          cases hx
          exact hstep.waits e rfl hkind

/-- Reading on until the end, or until a number of bytes is there. -/
theorem Held.gather (h : Held source st s got) (hsize : size ≠ 0) (limit : Option Nat) :
    Gathered source st got limit s (s.gather size limit).bytes (s.gather size limit) := by
  rw [Stream.gather]
  obtain ⟨more, hbytes, hmore⟩ := h.gatherLoop limit [] hsize
  rw [hbytes]
  exact hmore

end Depot.Stream
