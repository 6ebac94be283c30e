import Depot.Outlet
import Depot.Proofs.Stream.Faultless

/-!
# Pumps

A pump goes round after round until it has come to an end, and makes at most one frame in each. A frame holds what
was read and nothing else of its buffer. Over a source, whatever its pieces and its interruptions, the frames are the
bytes before the first error that is no interruption, and then this error if there is one.

## Main results

* `Pump.Makes.run` — running a pump makes the frames of its rounds.
* `Source.readToEnd_read` — what a read leaves of all that can be read.
* `Pump.makes_source` — the frames of a source.
-/

namespace Depot

namespace Pump

variable {p q t : Pump} {outlet : Outlet} {frame : Option Frame} {frames : List Frame} {out : Bytes} {e : ReadError}
  {k fuel : Nat}

/-- What a buffer is cut to is what was read. -/
@[simp] theorem take_filled (size : Nat) (out : Bytes) : (filled size out).take out.length = out := by
  simp [filled]

/-! ## Single rounds -/

theorem round_end (h : p.outlet.read p.size = (.ok [], outlet)) :
    p.round = (none, { p with outlet, ended := true }) := by
  rw [round, h]

theorem round_data (h : p.outlet.read p.size = (.ok out, outlet)) (hout : out ≠ []) :
    p.round = (some (.ok out), { p with outlet, sent := p.sent + out.length }) := by
  obtain ⟨b, rest, rfl⟩ := List.exists_cons_of_ne_nil hout
  rw [round, h]
  simp only [take_filled]

theorem round_interrupted (h : p.outlet.read p.size = (.error e, outlet)) (he : e.kind = .interrupted) :
    p.round = (none, { p with outlet }) := by
  rw [round, h]
  exact if_pos he

theorem round_failed (h : p.outlet.read p.size = (.error e, outlet)) (he : e.kind ≠ .interrupted) :
    p.round = (some (.error e), { p with outlet, ended := true }) := by
  rw [round, h]
  exact if_neg he

/-- What a round sends is counted. -/
theorem sent_round (p : Pump) : p.round.2.sent = p.sent + (p.round.1.toList.flatMap ReadResult.bytes).length := by
  cases hread : p.outlet.read p.size with | mk r outlet => ?_
  cases r with
  | ok out =>
    by_cases hout : out = []
    · subst hout
      simp [round_end hread]
    · simp [round_data hread hout, ReadResult.bytes]
  | error e =>
    by_cases he : e.kind = .interrupted
    · simp [round_interrupted hread he]
    · simp [round_failed hread he, ReadResult.bytes]

/-! ## All rounds -/

/-- Whether a pump makes these frames in so many rounds, and has come to its end then. -/
inductive Makes : Nat → Pump → List Frame → Pump → Prop
  | ended {p : Pump} (h : p.ended = true) : Makes 0 p [] p
  | more {p q t : Pump} {frame : Option Frame} {frames : List Frame} {k : Nat} (hgo : p.ended = false)
      (h : p.round = (frame, q)) (rest : Makes k q frames t) : Makes (k + 1) p (frame.toList ++ frames) t

namespace Makes

/-- A pump that runs for long enough makes the frames of its rounds. -/
theorem run (h : Makes k p frames t) (hgo : p.ended = false) (hfuel : k ≤ fuel) (done : List Frame) :
    run fuel done p = (done.reverse ++ frames, t) := by
  induction h generalizing fuel done with
  | ended hend => exact absurd (hend.symm.trans hgo) (by decide)
  | @more p q t frame frames k _ h rest ih =>
    obtain ⟨fuel, rfl⟩ := Nat.exists_eq_add_of_le' (Nat.le_trans (Nat.le_add_left 1 k) hfuel)
    rw [Pump.run, h]
    simp only
    split
    · next hend =>
      -- Behind its end a pump makes no more frames.
      cases rest with
      | ended => cases frame <;> simp
      | more hgo' => exact absurd (hend.symm.trans hgo') (by decide)
    · next hgo' =>
      rw [ih (Bool.not_eq_true _ ▸ hgo') (by omega)]
      cases frame <;> simp

/-- What the frames hold is what was counted. -/
theorem sent (h : Makes k p frames t) : t.sent = p.sent + (frames.flatMap ReadResult.bytes).length := by
  induction h with
  | ended => rfl
  | @more p q t frame frames k _ h rest ih =>
    have hround := sent_round p
    rw [h] at hround
    simp only at hround
    rw [ih, hround, List.flatMap_append, List.length_append, Nat.add_assoc]

end Makes

end Pump

/-! ## Frames of a source -/

namespace Source

variable {s s' : Source} {n : Nat} {out : Bytes} {e : ReadError} {r : ReadResult}

theorem length_readPieces_le {isOpen : Bool} {pieces : List Piece} (h : (readPieces isOpen n pieces).1 = .ok out) :
    out.length ≤ n := by
  fun_induction readPieces isOpen n pieces with
  | case1 => split at h <;> cases h; exact Nat.zero_le n
  | case2 rest ih => exact ih h
  | case3 => cases h; exact Nat.zero_le _
  | case4 b rest => cases h; exact List.length_take_le n b
  | case5 => cases h; exact Nat.zero_le _
  | case6 => cases h

/-- A read does not bring more than it asks for. -/
theorem length_read_le (h : s.read n = (.ok out, s')) : out.length ≤ n :=
  length_readPieces_le (congrArg Prod.fst ((read_eq s n).symm.trans h))

/-- What is left to be read to the end, behind an answer of the source. -/
def Behind (r : ReadResult) (s' : Source) : Bytes × Option ReadError :=
  match r with
  | .ok out => (out ++ s'.readToEnd.1, s'.readToEnd.2)
  | .error e => if e.kind = .interrupted then s'.readToEnd else ([], some e)

theorem readToEnd_readPieces (hn : n ≠ 0) (pieces : List Piece) :
    readToEnd.go pieces = Behind (readPieces false n pieces).1 ⟨(readPieces false n pieces).2, false⟩ := by
  fun_induction readPieces false n pieces with
  | case1 => simp [Behind, readToEnd, readToEnd.go]
  | case2 rest ih => simp [readToEnd.go, ih]
  | case3 => contradiction
  | case4 b rest => simp [Behind, readToEnd, readToEnd.go, ← List.append_assoc]
  | case5 => contradiction
  | case6 e rest => simp [Behind, readToEnd, readToEnd.go]

/-- What a read leaves of all that can be read. -/
theorem readToEnd_read (hn : n ≠ 0) (hclosed : s.isOpen = false) (h : s.read n = (r, s')) :
    s.readToEnd = Behind r s' := by
  rw [read_eq, hclosed] at h
  obtain ⟨rfl, rfl⟩ := Prod.mk.inj h
  exact readToEnd_readPieces hn s.pieces

end Source

namespace Pump

variable {s : Source} {n : Nat}

/-- The frames of some bytes, and of the error behind them if there is one. -/
def frames (data : List Bytes) (failure : Option ReadError) : List Frame :=
  data.map .ok ++ failure.toList.map .error

/-- Whether the frames of a payload are cut to buffers of `n` bytes: none of them is empty or too long. -/
def Cut (n : Nat) (data : List Bytes) : Prop := ∀ b ∈ data, b ≠ [] ∧ b.length ≤ n

/-- The frames of a source to which nothing will be added. -/
theorem makes_source (hn : n ≠ 0) (hclosed : s.isOpen = false) (sent : Nat) :
    ∃ k data t, k ≤ s.weight + 1 ∧ Makes k { outlet := .bare s, size := n, sent } (frames data s.readToEnd.2) t ∧
      data.flatten = s.readToEnd.1 ∧ Cut n data := by
  induction hweight : s.weight using Nat.strongRecOn generalizing s sent with | ind w ih => ?_
  let p : Pump := { outlet := .bare s, size := n, sent }
  obtain ⟨r, s', hread⟩ : ∃ r s', s.read n = (r, s') := ⟨_, _, rfl⟩
  have hall := Source.readToEnd_read hn hclosed hread
  have houtlet : p.outlet.read p.size = (r, .bare s') := by
    simp only [p, Outlet.read, hread]
  have hless := Source.weight_read hn hclosed hread
  cases r with
  | ok out =>
    by_cases hout : out = []
    · subst hout
      have hend : s'.readToEnd = ([], none) := by
        rw [Source.readToEnd, (Source.read_end hn hread).2]
        rfl
      rw [Source.Behind, hend] at hall
      rw [hall]
      exact ⟨1, [], _, by omega, .more rfl (round_end houtlet) (.ended rfl), rfl, by simp [Cut]⟩
    · obtain ⟨hclosed', hlighter⟩ := hless (by simpa using hout)
      obtain ⟨k, data, t, hk, hmakes, hdata, hcut⟩ := ih s'.weight (by omega) hclosed' (sent + out.length) rfl
      have hfirst : out ≠ [] ∧ out.length ≤ n := ⟨hout, Source.length_read_le hread⟩
      refine ⟨k + 1, out :: data, t, by omega, ?_, ?_, List.forall_mem_cons.mpr ⟨hfirst, hcut⟩⟩
      · rw [hall]
        exact .more rfl (round_data houtlet hout) hmakes
      · rw [hall, List.flatten_cons, hdata]
        rfl
  | error e =>
    obtain ⟨hclosed', hlighter⟩ := hless (by simp)
    by_cases he : e.kind = .interrupted
    · obtain ⟨k, data, t, hk, hmakes, hdata, hcut⟩ := ih s'.weight (by omega) hclosed' sent rfl
      rw [Source.Behind, if_pos he] at hall
      rw [hall]
      exact ⟨k + 1, data, t, by omega, .more rfl (round_interrupted houtlet he) hmakes, hdata, hcut⟩
    · rw [Source.Behind, if_neg he] at hall
      rw [hall]
      exact ⟨1, [], _, by omega, .more rfl (round_failed houtlet he) (.ended rfl), rfl, by simp [Cut]⟩

theorem bytes_frames (data : List Bytes) (failure : Option ReadError) :
    (frames data failure).flatMap ReadResult.bytes = data.flatten := by
  cases failure <;> simp [frames, List.flatMap_map, ReadResult.bytes]

theorem error?_frames (data : List Bytes) (failure : Option ReadError) :
    (frames data failure).findSome? ReadResult.error? = failure := by
  have hdata : (data.map (Except.ok : Bytes → Frame)).findSome? ReadResult.error? = none := by
    simp [List.findSome?_eq_none_iff, ReadResult.error?]
  rw [frames, List.findSome?_append, hdata, Option.none_or]
  cases failure <;> rfl

end Pump

/-- What is sent of an outlet that runs out before the bound on its rounds does. -/
theorem Outlet.pump_of_makes {o : Outlet} {n k : Nat} {data : List Bytes} {failure : Option ReadError} {t : Pump}
    (h : Pump.Makes k { outlet := o, size := n } (Pump.frames data failure) t) (hk : k ≤ o.weight n) :
    o.pump n = (Pump.frames data failure, t) ∧ o.send n = (data.flatten, failure) := by
  have hpump : o.pump n = (Pump.frames data failure, t) := h.run rfl hk []
  refine ⟨hpump, ?_⟩
  rw [send, hpump, Pump.bytes_frames, Pump.error?_frames]

end Depot
