import Depot.Proofs.Store.Program
import Depot.Proofs.Stream.Delivery
import Depot.Resource.Object

/-!
# Backends that consume a stream

What a storage promises of the way in which it writes a stream, whatever the pieces in which it reads
and however often it pauses: it puts down what it has read, under the path it was told, once it has seen
the end of the stream; it puts down nothing else; and it claims to have stored something only if it did.

## Main results

* `ObjectResource.stores_write` — a storage that stages its writes keeps this promise.
* `Consumer.wp_drive` — a consumer that keeps its promise, whatever its calls mean.
* `Consumer.ensures_drive` — what has become of the stream and of the store when the consumer stops.
-/

namespace Depot

open ObjectResource (Written)

/-- Whether a call is one with which a storage writes under a path. -/
def Call.Writes (path : String) : Call → Prop
  | .intake p | .stage p | .put p _ => p = path
  | _ => False

/-- What the calls of a storage that writes under a path mean: `w` stays what it is up to the last of
them, which makes it `stored`. -/
structure Meaning.Stores {S : Type} (M : Meaning S) (path : String) (payload : Bytes → Prop) (w : S)
    (stored : Bytes → S) : Prop where
  intake : ∀ {K : Reply (Option Intake) → S → Prop}, (∀ r, K r w) → M.pre (.intake path) K w
  stage : ∀ {K : Reply Unit → S → Prop}, (∀ r, K r w) → M.pre (.stage path) K w
  put : ∀ {bytes : Bytes} {K : Reply Nat → S → Prop}, payload bytes → (∀ n, K (.ok n) (stored bytes)) →
    (∀ r, (∀ n, r ≠ .ok n) → K r w) → M.pre (.put path bytes) K w

/-- Whether `I` stays true whatever a storage calls that writes under a path. -/
def Meaning.Keeps {S : Type} (M : Meaning S) (path : String) (I : S → Prop) : Prop :=
  ∀ (c : Call) (K : Reply c.Answer → S → Prop) (t : S), I t → c.Writes path → (∀ r u, I u → K r u) → M.pre c K t

theorem Terms.stores_meaning (T : Terms) (path : String) (payload : Bytes → Prop) (v : Snapshot) :
    T.meaning.Stores path payload v fun bytes => v.setBytes path (some bytes) where
  intake hK := by
    rintro r _ rfl
    exact hK r
  stage hK := by
    rintro r _ rfl
    exact hK r
  put _ hok hfails := by
    rintro _ _ (⟨n, rfl, rfl⟩ | ⟨hr, rfl⟩)
    · exact hok n
    · exact hfails _ hr

namespace Consumer

/-- Whether a consumer that has read `got`, and the end of the stream if `ended`, keeps the promise. -/
def Stores (path : String) : Consumer Written → Bytes → Prop → Prop
  | .done x, _, _ => ∀ n, x ≠ .stored n
  | .read n next, got, ended =>
    ∀ r, (next r).Stores path (got ++ ReadResult.bytes r) (ended ∨ r = .ok [] ∧ n ≠ 0)
  | .gather limit pieces next, got, ended => ∀ more error,
    (next (pieces.reverse.flatten ++ more) error).Stores path (got ++ more)
      (ended ∨ error = none ∧ ∀ l, limit = some l → more.length < l)
  | .pause _ next, got, ended => next.Stores path got ended
  | .call (.intake p) next, got, ended => p = path ∧ ∀ r, (next r).Stores path got ended
  | .call (.stage p) next, got, ended => p = path ∧ ∀ r, (next r).Stores path got ended
  | .call (.put p bytes) next, got, ended =>
    p = path ∧ ended ∧ bytes = got ∧ (∀ n, ∃ m, next (.ok n) = .done (.stored m)) ∧
      ∀ r, (∀ n, r ≠ .ok n) → (next r).Stores path got ended
  | .call _ _, _, _ => False

/-- Whether a consumer makes no calls but those with which a storage writes under a path. -/
def Within {α : Type} (path : String) : Consumer α → Prop
  | .done _ => True
  | .read _ next => ∀ r, (next r).Within path
  | .gather _ pieces next => ∀ more error, (next (pieces.reverse.flatten ++ more) error).Within path
  | .pause _ next => next.Within path
  | .call c next => c.Writes path ∧ ∀ r, (next r).Within path

end Consumer

/-- Whether a consumer that stopped makes no calls any more but those with which a storage writes under a
path. -/
def Progress.Within {α : Type} (path : String) : Progress α → Prop
  | .finished _ => True
  | .waiting _ next => ∀ r, (next r).Within path
  | .asleep next => next.Within path

namespace ObjectResource

open Consumer (Stores)

variable {path : String} {claim : Option Nat} {got : Bytes} {ended : Prop}

theorem stores_put (hended : ended) : (put path claim got).Stores path got ended := by
  refine ⟨rfl, hended, rfl, fun n => ⟨_, rfl⟩, fun r hr => ?_⟩
  cases r with
  | ok n => exact absurd rfl (hr n)
  | failed e => exact fun n => by simp
  | crashed m => exact fun n => by simp

theorem stores_store : (store path claim got).Stores path got ended := by
  refine ⟨rfl, fun r => ?_⟩
  cases r with
  | ok _ =>
    intro more error
    cases error with
    | none => exact stores_put (.inr ⟨rfl, by simp⟩)
    | some e => exact fun n => by simp
  | failed e => exact fun n => by simp
  | crashed m => exact fun n => by simp

/-- A storage that says how it takes a payload in, and stages it, keeps its promise. -/
theorem stores_write (path : String) : (write path).Stores path [] False := by
  refine ⟨rfl, fun r => ?_⟩
  cases r with
  | failed e => exact fun n => by simp
  | crashed m => exact fun n => by simp
  | ok plan =>
    cases plan with
    | none => exact stores_store
    | some plan =>
      intro more error
      cases error with
      | some e => exact fun n => by simp
      | none =>
        rw [List.nil_append]
        simp only [Stores]
        split
        · exact fun n => by simp
        · exact fun n => by simp
        · exact stores_store

end ObjectResource

namespace Consumer

open Depot.Stream (Held)

variable {T : Terms} {source : Source} {st : Stages} {s : Stream} {got : Bytes} {ended : Prop}
  {path : String} {c : Consumer Written} {v : Snapshot} {patience : Nat}

/-- What has become of a stream and of a store that held `v` when the consumer stops. -/
inductive Delivered (source : Source) (st : Stages) (path : String) (v : Snapshot) :
    Handover Written → Snapshot → Prop
  /-- The consumer has to wait, or sleeps for too long. -/
  | stalled {h : Handover Written} (hresult : h.progress.result? = none)
      (hpending : h.stream.barrier = .pending) : Delivered source st path v h v
  /-- The consumer gave up, or the storage did. -/
  | refused {h : Handover Written} {x : Written} (hprogress : h.progress = .finished x)
      (hx : ∀ n, x ≠ .stored n) (hfired : h.stream.barrier ≠ .pending) : Delivered source st path v h v
  /-- The payload is in place. -/
  | stored {h : Handover Written} {n : Nat} {plain : Bytes} (hprogress : h.progress = .finished (.stored n))
      (hplain : st.Plain source.bytes plain) (hcompleted : h.stream.barrier = .completing st plain) :
      Delivered source st path v h (v.setBytes path (some plain))

theorem release_of_isComplete (hs : s.barrier.isComplete = true) : s.release = s := by
  refine Stream.fire_of_fired ?_ _
  rintro hb
  rw [hb] at hs
  cases hs

theorem Stores.within (hc : c.Stores path got ended) : c.Within path := by
  induction c generalizing got ended with
  | done x => trivial
  | read n next ih => exact fun r => ih r (hc r)
  | gather limit pieces next ih => exact fun more error => ih _ _ (hc more error)
  | pause ms next ih => exact ih hc
  | call c next ih =>
    cases c with
    | intake p => exact ⟨hc.1, fun r => ih r (hc.2 r)⟩
    | stage p => exact ⟨hc.1, fun r => ih r (hc.2 r)⟩
    | put p bytes =>
      obtain ⟨hp, -, -, hdone, hfails⟩ := hc
      refine ⟨hp, fun r => ?_⟩
      cases r with
      | ok n =>
        obtain ⟨m, hm⟩ := hdone n
        rw [hm]
        trivial
      | failed e => exact ih _ (hfails _ (by simp))
      | crashed m => exact ih _ (hfails _ (by simp))
    | _ => exact hc.elim

/-! ## Driving -/

variable {S : Type} {M : Meaning S} {w : S} {stored : Bytes → S}

theorem within_gathered {α : Type} {limit : Option Nat} {pieces : List Bytes}
    {next : Bytes → Option ReadError → Consumer α}
    (hnext : ∀ more error, (next (pieces.reverse.flatten ++ more) error).Within path) (r : ReadResult) :
    (gathered limit pieces next r).Within path := by
  cases r with
  | ok out =>
    cases out with
    | nil => simpa [gathered] using hnext [] none
    | cons b rest => exact fun more error => by simpa using hnext ((b :: rest) ++ more) error
  | error e =>
    rw [gathered]
    split
    · exact hnext
    · simpa using hnext [] (some e)

/-- A consumer that writes under a path, on a stream that may have failed. -/
theorem wp_drive_of_within {α : Type} {c : Consumer α} {I : S → Prop} (hI : M.Keeps path I)
    (hc : c.Within path) (hw : I w) : (c.drive patience s).wp M (fun h t => h.progress.Within path ∧ I t) w := by
  induction c generalizing s w patience with
  | done x => exact ⟨trivial, hw⟩
  | read n next ih =>
    rw [drive]
    split
    · exact ih _ (hc _) hw
    · split
      · exact ⟨hc, hw⟩
      · exact ih _ (hc _) hw
  | gather limit pieces next ih =>
    have hnext (more : Bytes) (error : Option ReadError) :
        (next ((more :: pieces).reverse.flatten) error).Within path := by simpa using hc more error
    rw [drive]
    split
    · exact ⟨within_gathered fun more error => by simpa using hc _ error, hw⟩
    · exact ih _ _ (hnext _ _) hw
  | pause ms next ih =>
    rw [drive]
    split
    · exact ⟨hc, hw⟩
    · exact ih hc hw
  | call c next ih => exact hI c _ w hw hc.1 fun r t ht => ih r (hc.2 r) ht

/-- Driving a consumer that keeps its promise. -/
theorem wp_drive (hst : st.compress = false) (hc : c.Stores path got ended) (hs : Held source st s got)
    (hended : ended → s.barrier.isComplete = true) (hM : M.Stores path (st.Plain source.bytes) w stored)
    {Q : Handover Written → S → Prop}
    (hstalled : ∀ h, h.progress.result? = none → h.progress.Within path → h.stream.barrier = .pending → Q h w)
    (hrefused : ∀ h x, h.progress = .finished x → (∀ n, x ≠ .stored n) → h.stream.barrier ≠ .pending → Q h w)
    (hstored : ∀ h n plain, h.progress = .finished (.stored n) → st.Plain source.bytes plain →
      h.stream.barrier = .completing st plain → Q h (stored plain)) : (c.drive patience s).wp M Q w := by
  induction c generalizing s got ended patience with
  | done x => exact hrefused _ x rfl hc (Stream.barrier_fire_ne_pending (by simp))
  | read n next ih =>
    rw [drive]
    split
    · rename_i out s' hread
      have hstep := hs.read hread
      exact ih _ (hc (.ok out)) hstep.held fun he => hstep.isComplete (he.imp_left hended)
    · rename_i e s' hread
      have hstep := hs.read hread
      split
      · rename_i hkind
        exact hstalled _ rfl (fun r => (hc r).within) (hstep.waits e rfl hkind)
      · exact ih _ (hc (.error e)) hstep.held fun he => hstep.isComplete (he.imp_left hended)
  | gather limit pieces next ih =>
    have hmore := hs.gather (show chunk ≠ 0 by decide) limit
    rw [drive]
    split
    · rename_i hwaits
      obtain ⟨e, he, hkind⟩ := (Option.any_eq_true _ _).mp hwaits
      refine hstalled _ rfl ?_ (hmore.waits e he (by simpa using hkind))
      exact within_gathered fun more error => by simpa using (hc _ error).within
    · have hnext := hc (s.gather chunk limit).bytes (s.gather chunk limit).error
      refine ih _ _ (by simpa using hnext) hmore.held ?_
      exact fun he => hmore.isComplete (he.imp_left hended)
  | pause ms next ih =>
    rw [drive]
    split
    · rename_i hsleeps
      exact hstalled _ rfl hc.within hsleeps.1
    · exact ih hc hs hended
  | call c next ih =>
    cases c with
    | intake p =>
      obtain ⟨rfl, hnext⟩ := hc
      exact hM.intake fun r => ih r (hnext r) hs hended
    | stage p =>
      obtain ⟨rfl, hnext⟩ := hc
      exact hM.stage fun r => ih r (hnext r) hs hended
    | put p bytes =>
      obtain ⟨rfl, he, rfl, hdone, hfails⟩ := hc
      have hcomplete := hended he
      obtain ⟨plain, hplain, houtput, hcompleted⟩ := hs.completed hcomplete
      obtain rfl : bytes = plain := by simpa [Stages.output, hst] using houtput
      refine hM.put hplain (fun n => ?_) fun r hr => ih r (hfails r hr) hs hended
      obtain ⟨m, hm⟩ := hdone n
      simp only [hm]
      exact hstored _ m bytes rfl hplain (by rwa [release_of_isComplete hcomplete])
    | _ => exact hc.elim

/-- What has become of the stream and of a store that keeps the contract. -/
theorem ensures_drive (hst : st.compress = false) (hc : c.Stores path got ended)
    (hs : Held source st s got) (hended : ended → s.barrier.isComplete = true) :
    (c.drive patience s).Ensures T (Delivered source st path v) v :=
  Program.ensures_iff_wp.mpr <| wp_drive hst hc hs hended (T.stores_meaning path _ v)
    (fun _ hresult _ hpending => .stalled hresult hpending)
    (fun _ _ hprogress hx hfired => .refused hprogress hx hfired)
    fun _ _ _ hprogress hplain hcompleted => .stored hprogress hplain hcompleted

end Consumer

namespace Handover

variable {α S : Type} {M : Meaning S} {w : S} {path : String} {I : S → Prop} {h : Handover α}

theorem wp_resume (hI : M.Keeps path I) (hh : h.progress.Within path) (hw : I w) :
    h.resume.wp M (fun h t => h.progress.Within path ∧ I t) w := by
  rw [resume]
  cases hp : h.progress with
  | finished a => exact ⟨by rw [hp]; trivial, hw⟩
  | asleep next => exact ⟨hh, hw⟩
  | waiting n next =>
    rw [hp] at hh
    dsimp only
    split
    · exact Consumer.wp_drive_of_within hI (hh _) hw
    · split
      · exact ⟨by simpa only [hp] using hh, hw⟩
      · exact Consumer.wp_drive_of_within hI (hh _) hw

theorem wp_wake (hI : M.Keeps path I) (hh : h.progress.Within path) (hw : I w) :
    h.wake.wp M (fun h t => h.progress.Within path ∧ I t) w := by
  rw [wake]
  cases hp : h.progress with
  | finished a => exact ⟨hh, hw⟩
  | waiting n next => exact ⟨hh, hw⟩
  | asleep next =>
    rw [hp] at hh
    exact Consumer.wp_drive_of_within hI hh hw

end Handover

end Depot
