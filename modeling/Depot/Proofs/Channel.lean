import Depot.Proofs.Gateway.Metrics
import Depot.Proofs.Outlet

/-!
# A payload on its way to the client

A worker pumps the payload of an answer into a channel that holds a few frames, and the client takes them out. The
worker waits while the channel is full, the client while it is empty, and the client may go away at any time. In
whatever order the two take their turns, there are only finitely many of them, what the client has received are the
first frames of the payload, and one that stays receives all of them.

## Main definitions

* `Channel` — the worker, the channel and the client.
* `Channel.Carries` — what is under way makes up the frames of the payload.

## Main results

* `Channel.Carries.step` — every turn keeps what is under way, and brings the end closer.
* `Channel.Carries.complete` — where neither side has a turn, a client that stayed has everything.
* `Channel.delivers` — the frames of a source are delivered, and its bytes are counted.
-/

namespace Depot

/-- A payload that is sent, and the client that it is sent to. -/
structure Channel where
  pump : Pump
  /-- The frame that the worker wants to put into the channel. -/
  held : Option Frame := none
  /-- The frames in the channel, the oldest one first. -/
  queue : List Frame := []
  /-- What the client has received, in order. -/
  received : List Frame := []
  /-- Whether the client went away. -/
  gone : Bool := false

namespace Channel

/-- How many frames there may be in the channel. -/
def capacity : Nat := 4

/-- What may happen next. -/
inductive Move where
  | worker
  | client
  | leave
  deriving DecidableEq, Repr

/-- The worker gets rid of its frame, or makes the next one. It stops when nobody is there to receive its frame. -/
def work (c : Channel) : Option Channel :=
  match c.held with
  | some frame =>
    if c.gone then some { c with held := none, pump := { c.pump with ended := true } }
    else if c.queue.length < capacity then some { c with held := none, queue := c.queue ++ [frame] }
    else none
  | none =>
    if c.pump.ended then none
    else some { c with held := c.pump.round.1, pump := c.pump.round.2 }

/-- The client takes a frame. -/
def receive (c : Channel) : Option Channel :=
  match c.queue with
  | [] => none
  | frame :: rest => some { c with queue := rest, received := c.received ++ [frame] }

/-- The client goes away, and with it what is in the channel. -/
def leave (c : Channel) : Option Channel := if c.gone then none else some { c with gone := true, queue := [] }

/-- One move, if it can be made. -/
def step (c : Channel) : Move → Option Channel
  | .worker => c.work
  | .client => c.receive
  | .leave => c.leave

/-- One move after the other. -/
def run (c : Channel) : List Move → Option Channel
  | [] => some c
  | m :: moves => (c.step m).bind fun c => c.run moves

/-- Whether neither the worker nor the client can go on. -/
def Over (c : Channel) : Prop := c.step .worker = none ∧ c.step .client = none

variable {c d : Channel} {frames : List Frame} {t : Pump} {k : Nat} {m : Move} {moves : List Move}

/-! ## Single moves -/

/-- How many moves there can be: three for each round of the pump, one of them to put its frame into the channel and
one to take it out, and one for the client to go away. -/
def effort (k : Nat) (c : Channel) : Nat :=
  3 * k + 2 * c.held.toList.length + c.queue.length + if c.gone then 0 else 1

/-- What is under way. The pump has `k` rounds left, and as long as the client stays, what they make completes the
frames. -/
structure Carries (frames : List Frame) (t : Pump) (k : Nat) (c : Channel) : Prop where
  makes : ∃ future last, Pump.Makes k c.pump future last ∧ (c.gone = false →
    last = t ∧ c.received ++ c.queue ++ c.held.toList ++ future = frames)
  received : c.received <+: frames
  dropped : c.gone = true → c.queue = []

theorem carries_start {p : Pump} (h : Pump.Makes k p frames t) : Carries frames t k { pump := p } where
  makes := ⟨frames, t, h, fun _ => ⟨rfl, rfl⟩⟩
  received := List.nil_prefix
  dropped hgone := by cases hgone

namespace Carries

theorem work (h : Carries frames t k c) (hwork : c.work = some d) :
    ∃ k', Carries frames t k' d ∧ effort k' d < effort k c := by
  obtain ⟨⟨future, last, hmakes, hframes⟩, hreceived, hdropped⟩ := h
  unfold Channel.work at hwork
  split at hwork
  · next frame hheld =>
    split at hwork
    · -- Nobody is there to receive the frame.
      next hgone =>
      cases hwork
      refine ⟨0, ⟨⟨[], _, .ended rfl, fun hstayed => ?_⟩, hreceived, hdropped⟩, ?_⟩
      · rw [hgone] at hstayed
        cases hstayed
      · simp only [effort, hheld, hgone, Option.toList_none, Option.toList_some, List.length_nil, List.length_singleton]
        omega
    · split at hwork
      · cases hwork
        refine ⟨k, ⟨⟨future, last, hmakes, fun hgone => ?_⟩, hreceived, fun hgone => ?_⟩, ?_⟩
        · obtain ⟨hlast, heq⟩ := hframes hgone
          exact ⟨hlast, by simpa [hheld] using heq⟩
        · contradiction
        · simp only [effort, hheld, Option.toList_none, Option.toList_some, List.length_nil, List.length_singleton,
            List.length_append]
          omega
      · cases hwork
  · next hheld =>
    split at hwork
    · cases hwork
    · next hgo =>
      cases hwork
      cases hmakes with
      | ended hend => exact absurd hend hgo
      | @more _ q _ frame future k _ hround hrest =>
        rw [hround]
        refine ⟨k, ⟨⟨future, last, hrest, fun hgone => ?_⟩, hreceived, hdropped⟩, ?_⟩
        · obtain ⟨hlast, heq⟩ := hframes hgone
          exact ⟨hlast, by simpa [hheld] using heq⟩
        · have hlength : frame.toList.length ≤ 1 := by cases frame <;> simp
          simp only [effort, hheld, Option.toList_none, List.length_nil]
          omega

theorem receive (h : Carries frames t k c) (hreceive : c.receive = some d) :
    Carries frames t k d ∧ effort k d < effort k c := by
  obtain ⟨⟨future, last, hmakes, hframes⟩, -, hdropped⟩ := h
  unfold Channel.receive at hreceive
  split at hreceive
  · cases hreceive
  · next frame rest hqueue =>
    cases hreceive
    have hgone : c.gone = false := by
      rw [← Bool.not_eq_true]
      intro hgone
      rw [hdropped hgone] at hqueue
      cases hqueue
    obtain ⟨hlast, heq⟩ := hframes hgone
    have hnext : (c.received ++ [frame]) ++ rest ++ c.held.toList ++ future = frames := by
      simpa [hqueue] using heq
    refine ⟨⟨⟨future, last, hmakes, fun _ => ⟨hlast, hnext⟩⟩, ?_, fun hyes => ?_⟩, ?_⟩
    · rw [← hnext, List.append_assoc, List.append_assoc]
      exact List.prefix_append ..
    · exact absurd (hyes.symm.trans hgone) (by decide)
    · simp only [effort, hqueue, List.length_cons]
      omega

theorem leave (h : Carries frames t k c) (hleave : c.leave = some d) :
    Carries frames t k d ∧ effort k d < effort k c := by
  obtain ⟨⟨future, last, hmakes, -⟩, hreceived, -⟩ := h
  unfold Channel.leave at hleave
  split at hleave
  · cases hleave
  · next hgone =>
    cases hleave
    refine ⟨⟨⟨future, last, hmakes, fun hstayed => ?_⟩, hreceived, fun _ => rfl⟩, ?_⟩
    · cases hstayed
    · simp only [effort, hgone, if_true, Bool.false_eq_true, if_false, List.length_nil]
      omega

/-- Every move keeps what is under way, and there is one less to make. -/
theorem step (h : Carries frames t k c) (hstep : c.step m = some d) :
    ∃ k', Carries frames t k' d ∧ effort k' d < effort k c := by
  cases m with
  | worker => exact h.work hstep
  | client => exact ⟨k, h.receive hstep⟩
  | leave => exact ⟨k, h.leave hstep⟩

/-- Where nobody can go on, the worker is done, and a client that stayed has everything. -/
theorem complete (h : Carries frames t k c) (hover : c.Over) :
    c.pump.ended = true ∧ c.held = none ∧ c.queue = [] ∧ (c.gone = false → c.received = frames ∧ c.pump = t) := by
  obtain ⟨⟨future, last, hmakes, hframes⟩, -, -⟩ := h
  obtain ⟨hworker, hclient⟩ := hover
  have hqueue : c.queue = [] := by
    simp only [Channel.step, Channel.receive] at hclient
    split at hclient
    · assumption
    · cases hclient
  have hworker : c.held = none ∧ c.pump.ended = true := by
    simp only [Channel.step, Channel.work, hqueue, List.length_nil, capacity] at hworker
    split at hworker
    · split at hworker <;> cases hworker
    · next hheld =>
      split at hworker
      · exact ⟨hheld, by assumption⟩
      · cases hworker
  refine ⟨hworker.2, hworker.1, hqueue, fun hgone => ?_⟩
  obtain ⟨rfl, heq⟩ := hframes hgone
  cases hmakes with
  | ended => exact ⟨by simpa [hqueue, hworker.1] using heq, rfl⟩
  | more hgo => exact absurd (hworker.2.symm.trans hgo) (by decide)

end Carries

/-! ## All moves -/

/-- What is under way is kept by all moves, and there are no more of them than there can be. -/
theorem Carries.run (h : Carries frames t k c) (hrun : c.run moves = some d) :
    ∃ k', Carries frames t k' d ∧ effort k' d + moves.length ≤ effort k c := by
  induction moves generalizing c k with
  | nil =>
    cases hrun
    exact ⟨k, h, Nat.le_refl _⟩
  | cons m moves ih =>
    obtain ⟨next, hstep, hrest⟩ := Option.bind_eq_some_iff.mp hrun
    obtain ⟨k₁, hnext, hless⟩ := h.step hstep
    obtain ⟨k₂, hall, hle⟩ := ih hnext hrest
    refine ⟨k₂, hall, ?_⟩
    rw [List.length_cons]
    omega

theorem gone_of_work (h : c.work = some d) : d.gone = c.gone := by
  unfold Channel.work at h
  grind

theorem gone_of_receive (h : c.receive = some d) : d.gone = c.gone := by
  unfold Channel.receive at h
  grind

/-- A client that stays comes to the end. -/
theorem Carries.exists_over (h : Carries frames t k c) : ∃ moves d, c.run moves = some d ∧ d.Over ∧ d.gone = c.gone := by
  induction heffort : effort k c using Nat.strongRecOn generalizing c k with | ind e ih => ?_
  -- Whoever can go on does so.
  have hnext {m : Move} {d : Channel} (hstep : c.step m = some d) (hgone : d.gone = c.gone) :
      ∃ moves d, c.run moves = some d ∧ d.Over ∧ d.gone = c.gone := by
    obtain ⟨k', hcarries, hless⟩ := h.step hstep
    obtain ⟨moves, last, hrun, hover, hsame⟩ := ih _ (heffort ▸ hless) hcarries rfl
    refine ⟨m :: moves, last, ?_, hover, hsame.trans hgone⟩
    rw [Channel.run, hstep, Option.bind_some, hrun]
  cases hworker : c.step .worker with
  | some d => exact hnext hworker (gone_of_work hworker)
  | none =>
    cases hclient : c.step .client with
    | some d => exact hnext hclient (gone_of_receive hclient)
    | none => exact ⟨[], c, rfl, ⟨hworker, hclient⟩, rfl⟩

/-! ## The payload of a source -/

/-- A source that is about to be sent in buffers of `n` bytes. -/
def start (s : Source) (n : Nat) : Channel := { pump := { outlet := .bare s, size := n } }

/-- Whatever a source brings and however it is interrupted, its payload is sent in frames that hold its bytes up to the
first error that is no interruption, in order, followed by that error if there is one; none of them is empty or longer
than a buffer. In whatever order the worker and the client take their turns, they come to the end, what the client
received are the first of these frames, and all of them if it stayed. Then the worker has counted the bytes that were
delivered, and so does the gateway. -/
theorem delivers (pieces : List Source.Piece) {n : Nat} (hn : 0 < n) :
    let s : Source := ⟨pieces, false⟩
    ∃ data : List Bytes, data.flatten = s.readToEnd.1 ∧ Pump.Cut n data ∧ (Outlet.bare s).send n = s.readToEnd ∧
      (∀ moves c, (start s n).run moves = some c →
        moves.length ≤ 3 * (s.weight + 1) + 1 ∧ c.received <+: Pump.frames data s.readToEnd.2 ∧
          (c.Over → c.pump.ended = true ∧ c.held = none ∧ c.queue = [] ∧
            (c.gone = false → c.received = Pump.frames data s.readToEnd.2 ∧ c.pump.sent = s.readToEnd.1.length))) ∧
      (∃ moves c, (start s n).run moves = some c ∧ c.Over ∧ c.gone = false) ∧
      ∀ (x : Exchange) (o : Outcome) (m : Metrics), o.answer.payload = .stream (.bare s) →
        (x.count o (o.answer.send n).1 m).value Metrics.sent = m.value Metrics.sent + s.readToEnd.1.length := by
  intro s
  obtain ⟨k, data, t, hk, hmakes, hdata, hcut⟩ := Pump.makes_source (s := s) (Nat.ne_of_gt hn) rfl 0
  have hsend : (Outlet.bare s).send n = s.readToEnd := by
    rw [(Outlet.pump_of_makes hmakes (Nat.le_trans hk (Outlet.weight_bare s n))).2, hdata]
  have hsent : t.sent = s.readToEnd.1.length := by
    rw [hmakes.sent, Pump.bytes_frames, hdata, Nat.zero_add]
  have hstart : Carries (Pump.frames data s.readToEnd.2) t k (start s n) := carries_start hmakes
  refine ⟨data, hdata, hcut, hsend, fun moves c hrun => ?_, hstart.exists_over, fun x o m hpayload => ?_⟩
  · obtain ⟨k', hcarries, heffort⟩ := hstart.run hrun
    refine ⟨?_, hcarries.received, fun hover => ?_⟩
    · have hfirst : effort k (start s n) = 3 * k + 1 := rfl
      omega
    · obtain ⟨hended, hheld, hqueue, hall⟩ := hcarries.complete hover
      refine ⟨hended, hheld, hqueue, fun hgone => ?_⟩
      obtain ⟨hreceived, rfl⟩ := hall hgone
      exact ⟨hreceived, hsent⟩
  · rw [x.value_count_sent _ m hpayload, Answer.send, hpayload]
    simp only
    rw [hsend]

/-- A source that is interrupted between its pieces, and breaks off. -/
theorem delivers_interrupted : 0 < 2 ∧ ∃ data : List Bytes, data.flatten = [1, 2, 3, 4] ∧ Pump.Cut 2 data ∧
    ∃ moves c, (start ⟨[.data [1, 2, 3], .failure ⟨.interrupted, "", false⟩, .data [4],
        .failure ⟨.connectionReset, "gone", false⟩, .data [5]], false⟩ 2).run moves = some c ∧ c.Over ∧
      c.received = Pump.frames data (some ⟨.connectionReset, "gone", false⟩) ∧ c.pump.sent = 4 := by
  obtain ⟨data, hdata, hcut, -, hall, ⟨moves, c, hrun, hover, hgone⟩, -⟩ :=
    delivers [.data [1, 2, 3], .failure ⟨.interrupted, "", false⟩, .data [4],
      .failure ⟨.connectionReset, "gone", false⟩, .data [5]] (n := 2) (by decide)
  obtain ⟨hreceived, hsent⟩ := ((hall moves c hrun).2.2 hover).2.2.2 hgone
  exact ⟨by decide, data, hdata, hcut, moves, c, hrun, hover, hreceived, hsent⟩

end Channel

end Depot
