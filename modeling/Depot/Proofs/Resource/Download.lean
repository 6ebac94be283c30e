import Depot.Proofs.Resource.Upload

/-!
# Downloading an object

A download answers with the bytes of an object that is ready, and with the headers of its record; it is
told that there is nothing if the object is not ready, or has no bytes. The store stays as it is.

## Main results

* `Download.ensures_pull` — a download, from its beginning to its end.
-/

namespace Depot

open Depot.Action ObjectResource

namespace Download

variable {T : Terms} {v : Snapshot} {k : Key} {c : Context} {write : String → Consumer Written}
  {settings : Settings} {session : Session} {request : Headers} {s : State}

/-- The answer with the payload of a record. -/
def served (order : Metadata.Order) (session : Session) (r : ObjectRecord) (source : Source) : Answer :=
  let fields := (r.toFields order).insert Header.contentType octetsType
  { status := 200
    fields := session.finishFields (Fields.insert
      (if session.compressOut then fields.insert Header.contentEncoding zstdToken else fields)
      Header.transferEncoding "chunked")
    payload := .stream (if session.compressOut then .compressing source else .bare source) }

/-- How a download of an object ends. -/
inductive Pulled (order : Metadata.Order) (session : Session) (k : Key) (v : Snapshot) : Ending → Prop
  | served {r : ObjectRecord} {source : Source} {bytes : Bytes} (hr : v.object? k = some r.entry)
      (hready : r.status = .ready) (hbytes : v.bytes? k.path = some bytes) (hclean : source.Clean)
      (hsource : source.bytes = bytes) : Pulled order session k v (.answered (served order session r source))
  | missing {e : TransferError} {a : Answer} (ha : a.status = 404)
      (hnone : ∀ entry, v.object? k = some entry → entry.status = .ready → v.bytes? k.path = none) :
      Pulled order session k v (.failed e a)

theorem ensures_readable {Q : Except Trouble Bool → State → Snapshot → Prop}
    (hnone : (∀ e, v.object? k = some e → e.status = .ready → v.bytes? k.path = none) →
      Q (.ok false) s v)
    (hsome : ∀ r bytes, v.object? k = some r.entry → r.status = .ready → v.bytes? k.path = some bytes →
      Q (.ok true) { s with record := some r } v) : (readable k).Ensures T Q s v := by
  simp only [readable, ensures_bind, ensures_call]
  rintro _ v ⟨r, rfl, hr, -, rfl⟩
  cases r with
  | none => exact hnone fun e he => by rw [← hr] at he; cases he
  | some r =>
    have hr : v.object? k = some r.entry := hr.symm
    dsimp only [Reply.called_ok]
    split
    · rename_i hstatus
      refine hnone fun e he hready => ?_
      rw [hr] at he
      cases he
      exact absurd hready hstatus
    · rename_i hready
      simp only [ensures_bind, ensures_call]
      rintro _ v ⟨rfl, rfl⟩
      cases hbytes : v.bytes? k.path with
      | none => exact hnone fun _ _ _ => hbytes
      | some bytes => exact hsome r bytes hr (Decidable.not_not.mp hready) hbytes

section Attempt

variable {S : Type} {M : Meaning S} {w : S}

theorem wp_streamOut {r : ObjectRecord} (hdirection : session.direction = .download) (hrecord : s.record = some r)
    {Q : Except Trouble Answer → State → S → Prop}
    (h : M.pre (.openBytes k.path) (fun (a : Reply Source) w' =>
      match a with
      | .ok source => Q (.ok (served c.order session r source)) s w'
      | _ => ∀ t, Q (.error t) s w') w) :
    (streamOut (hooks c write) session k).wp M Q s w := by
  rw [streamOut, if_neg (by simp [hdirection])]
  simp only [hooks, wp_bind, wp_call, wp_get]
  refine M.mono (fun a w' h => ?_) h
  cases a with
  | ok source =>
    cases hout : session.compressOut with
    | false => simpa [served, hout, encode, hrecord] using h
    | true => simpa [served, hout, encode, hrecord] using h
  | failed e => exact h _
  | crashed m => exact h _

/-- How a download ends after its attempt. -/
def Ended (s : State) : Except Trouble Answer → Ending × State → Prop
  | .ok a, x => x = (.answered a, s)
  | .error (.refused e), x => ∃ a, a.status = e.status ∧ x = (.failed e a, s)
  | .error (.crashed m), x => x = (.crashed m, s)

/-- A download has nothing to let go of. -/
theorem wp_finish (hs : s.settled = true) (a : Except Trouble Answer)
    {Q : Ending × State → S → Prop} (h : ∀ x, Ended s a x → Q x w) :
    (finish (hooks c write) settings session k (a, s)).wp M Q w := by
  rcases a with (e | m) | a
  · simp only [finish, Program.wp_bind, wp_start, hooks, wp_pure, Program.wp_pure]
    exact wp_markFailed_settled hs (h _ ⟨_, rfl, rfl⟩)
  · simp only [finish, Program.wp_bind, wp_start, hooks, Program.wp_pure]
    exact wp_markFailed_settled hs (h _ rfl)
  · simp only [finish, Program.wp_bind, wp_start, hooks, Program.wp_pure]
    exact wp_markFailed_settled hs (h _ rfl)

end Attempt

theorem ensures_streamOut {r : ObjectRecord} {bytes : Bytes} (hdirection : session.direction = .download)
    (hrecord : s.record = some r) (hbytes : v.bytes? k.path = some bytes)
    {Q : Except Trouble Answer → State → Snapshot → Prop}
    (h : ∀ source, source.Clean → source.bytes = bytes → Q (.ok (served c.order session r source)) s v) :
    (streamOut (hooks c write) session k).Ensures T Q s v := by
  refine ensures_iff_wp.mpr (wp_streamOut hdirection hrecord ?_)
  rintro _ v ⟨rfl, hopen⟩
  obtain ⟨source, rfl, hclean, rfl⟩ := hopen bytes hbytes
  exact h source hclean rfl

/-- A download. -/
theorem ensures_pull (hdirection : session.direction = .download) (hs : s.settled = true) :
    (pull (hooks c write) settings session k request s).Ensures T
      (fun x w => Pulled c.order session k v x.1 ∧ w = v) v := by
  rw [pull, Program.ensures_bind, ensures_start, ensures_bind]
  refine ensures_readable (fun hnone => ?_) fun r bytes hr hready hbytes => ?_
  · simp only [Bool.false_eq_true, if_false, ensures_refuse]
    refine Program.ensures_iff_wp.mpr (wp_finish hs _ ?_)
    rintro _ ⟨a, ha, rfl⟩
    exact ⟨.missing ha hnone, rfl⟩
  · simp only [if_true]
    refine ensures_streamOut hdirection rfl hbytes fun source hclean hsource => ?_
    refine Program.ensures_iff_wp.mpr (wp_finish ?_ _ ?_)
    · exact hs
    · rintro _ rfl
      exact ⟨.served hr hready hbytes hclean hsource, rfl⟩

end Download

end Depot
