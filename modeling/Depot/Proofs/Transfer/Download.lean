import Depot.Proofs.Header.Wire
import Depot.Proofs.Store.Program
import Depot.Transfer.Download

/-!
# Downloads

What a download makes of what its resource brings, whatever the resource is: the headers beside the payload,
and the answer.

## Main results

* `Download.run_pull`, `Download.run_pullList` — a download whose resource brings a payload is answered with it.
* `Download.sent?_framed` — what a download puts beside the headers of its resource stays out of their way.
-/

namespace Depot.Download

open Depot.Action

variable {ρ ι ω κ σ : Type} {h : Hooks ρ ι ω κ} {settings : Settings} {session : Session} {input : ι}
  {perform : (c : Call) → σ → Reply c.Answer × σ} {request : Headers} {s s₁ s₂ s₃ : ρ} {w w₁ w₂ w₃ : σ}
  {source : PullSource} {fields : Fields} {outlet : Outlet} {a : Answer}

/-- The headers of an answer with a payload: those of the resource, and what the download puts beside them. -/
def framed (session : Session) (coded : Bool) (fields : Fields) : Fields :=
  session.finishFields (Fields.insert
    (if coded then fields.insert Header.contentEncoding zstdToken else fields) Header.transferEncoding "chunked")

/-- The answer with a payload. -/
def carrying (session : Session) (source : PullSource) (fields : Fields) (outlet : Outlet) : Answer where
  status := 200
  fields := framed session (session.compressOut || source.compressed) fields
  payload := .stream outlet

/-! ## Headers -/

/-- Headers that a download does not put in itself are those of the resource. -/
theorem sent?_framed {coded : Bool} {name : String} (hid : Header.operationId ≠ name)
    (hconnection : Header.connection ≠ name) (htransfer : Header.transferEncoding ≠ name)
    (hcoding : Header.contentEncoding ≠ name) : (framed session coded fields).sent? name = fields.sent? name := by
  have hlower : Text.lower Header.operationId = Header.operationId ∧ Text.lower Header.connection = Header.connection ∧
      Text.lower Header.transferEncoding = Header.transferEncoding ∧
      Text.lower Header.contentEncoding = Header.contentEncoding := by decide
  have hfinish (f : Fields) : (session.finishFields f).sent? name = f.sent? name := by
    rw [Session.finishFields]
    split
    · rw [Fields.sent?_insert_of_ne (by rwa [hlower.1])]
    · rw [Fields.sent?_insert_of_ne (by rwa [hlower.2.1]), Fields.sent?_insert_of_ne (by rwa [hlower.1])]
  rw [framed, hfinish, Fields.sent?_insert_of_ne (by rwa [hlower.2.2.1])]
  split
  · rw [Fields.sent?_insert_of_ne (by rwa [hlower.2.2.2])]
  · rfl

/-- The coding that an answer with a payload names. -/
theorem get?_contentEncoding_framed {coded : Bool} (hfields : fields.get? Header.contentEncoding = none) :
    (framed session coded fields).get? Header.contentEncoding = if coded then some zstdToken else none := by
  rw [framed, Session.get?_finishFields _ _ (by decide) (by decide), Fields.get?_insert, if_neg (by decide)]
  split
  · rw [Fields.get?_insert, if_pos rfl]
  · exact hfields

/-! ## Runs -/

theorem run_start_bind {α β : Type} {a : Action ρ α} {f : α → Action ρ β} {x : α}
    (ha : (a.start s).run perform w = ((.ok x, s₁), w₁)) :
    ((a >>= f).start s).run perform w = ((f x).start s₁).run perform w₁ := by
  rw [start_bind, Program.run_bind, ha]

/-- A payload is answered with. -/
theorem run_streamOut (hdirection : session.direction = .download)
    (hpayload : ((h.payload input).start s).run perform w = ((.ok source, s₁), w₁))
    (hfields : ((h.payloadFields input).start s₁).run perform w₁ = ((.ok fields, s₂), w₂))
    (houtlet : encode source (session.compressOut && !source.compressed) = .ok outlet) :
    ((streamOut h session input).start s).run perform w =
      ((.ok (carrying session source fields outlet), s₂), w₂) := by
  rw [streamOut, if_neg (by simp [hdirection])]
  beta_reduce
  rw [run_start_bind hpayload, run_start_bind hfields]
  simp only [houtlet]
  rfl

/-- An answer stands unless the resource crashes when it is let go of. -/
theorem run_finish_answered (hrelease : ∀ m, ((h.release.start s).run perform w).1.1 ≠ .error (.crashed m)) :
    ((finish h settings session input (.ok a, s)).run perform w).1.1 = .answered a := by
  rw [finish, pure_bind, Program.run_bind]
  show Ending.andThen (.answered a) ((h.release.start s).run perform w).1.1 = .answered a
  generalize ((h.release.start s).run perform w).1.1 = released at *
  obtain (e | m) | _ := released
  · rfl
  · exact absurd rfl (hrelease m)
  · rfl

/-- A download of what is there. -/
theorem run_pull (hdirection : session.direction = .download)
    (hreadable : ((h.readable input request).start s).run perform w = ((.ok true, s₁), w₁))
    (hpayload : ((h.payload input).start s₁).run perform w₁ = ((.ok source, s₂), w₂))
    (hfields : ((h.payloadFields input).start s₂).run perform w₂ = ((.ok fields, s₃), w₃))
    (houtlet : encode source (session.compressOut && !source.compressed) = .ok outlet)
    (hrelease : ∀ m, ((h.release.start s₃).run perform w₃).1.1 ≠ .error (.crashed m)) :
    ((pull h settings session input request s).run perform w).1.1 =
      .answered (carrying session source fields outlet) := by
  rw [pull, Program.run_bind, run_start_bind hreadable, if_pos rfl,
    run_streamOut hdirection hpayload hfields houtlet]
  exact run_finish_answered hrelease

/-- A download of a listing. -/
theorem run_pullList (hdirection : session.direction = .download)
    (hpayload : ((h.payload input).start s).run perform w = ((.ok source, s₁), w₁))
    (hfields : ((h.payloadFields input).start s₁).run perform w₁ = ((.ok fields, s₂), w₂))
    (houtlet : encode source (session.compressOut && !source.compressed) = .ok outlet)
    (hrelease : ∀ m, ((h.release.start s₂).run perform w₂).1.1 ≠ .error (.crashed m)) :
    ((pullList h settings session input s).run perform w).1.1 =
      .answered (carrying session source fields outlet) := by
  rw [pullList, Program.run_bind, run_streamOut hdirection hpayload hfields houtlet]
  exact run_finish_answered hrelease

end Depot.Download
