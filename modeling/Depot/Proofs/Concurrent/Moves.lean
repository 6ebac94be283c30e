import Depot.Proofs.Concurrent.Protocol

/-!
# Moves

What a single call makes of a ledger, of the requests that follow their protocols. Whatever holds at the end
of a schedule is shown by going through the moves of each request.

A deletion marks the record that it has found some calls after it has made sure that it may do so. Whether it
still may by then is for `Snapshot.MayMark` to say.

## Main results

* `Deposit.moves`, `Turn.deletion_moves`, `Turn.removal_moves`, `Turn.creation_moves`,
  `Turn.retrieval_moves` — the moves of each request.
-/

namespace Depot

open ObjectResource (uploading erasable isReady)

/-- The record that a call marks as about to be deleted. -/
def Call.marked? : Call → Option ObjectRecord
  | .updateObject r => if r.status = .deleting then some r else none
  | _ => none

/-- Whether a deletion that marks a record does so on a store that holds `v` where it may be deleted. -/
def Snapshot.MayMark (v : Snapshot) (c : Call) : Prop :=
  ∀ r ∈ c.marked?, ∃ e ∈ v.object? r.key, erasable e.status

instance decidableErasable (t : Status) : Decidable (erasable t) :=
  inferInstanceAs (Decidable (t = .ready ∨ t = .uploadFailed ∨ t = .deletionFailed))

instance decidableMayMark (v : Snapshot) (c : Call) : Decidable (v.MayMark c) :=
  inferInstanceAs (Decidable (∀ r ∈ c.marked?, ∃ e ∈ v.object? r.key, erasable e.status))

variable {T : Terms} {x y : Ledger} {p q : Phase} {c : Call} {a : Reply c.Answer}

/-! ## Uploads -/

/-- The moves of an upload. -/
inductive Deposit.Moves (d : Deposit) (T : Terms) (x : Ledger) (p q : Phase) (y : Ledger) : Prop
  | waits (hp : p = .idle ∨ p = .writing none ∨ p = .failed ∨ p = .stray ∨ p = .lost) (hq : q = p) (hy : y = x)
  | barred (hp : p = .idle) (hq : q = .refused none) (hy : y = x)
      (hx : ¬ (x.bucket? d.key.bucket = some .ready ∧ T.Fits 0))
  | occupied (t : Status) (hp : p = .idle) (hq : q = .refused (some t)) (hy : y = x)
      (hx : (x.object? d.key).map (·.status) = some t) (ht : t.isReplaceable = false)
  | admitted (r : ObjectRecord) (hp : p = .idle) (hq : q = .writing none) (hy : y = x.record r)
      (hr : r.key = d.key) (hid : r.id = d.context.recordId) (hentry : r.entry = uploading)
      (hfree : (x.object? d.key).all (·.status.isReplaceable) = true)
      (hready : x.bucket? d.key.bucket = some .ready)
  | puts (plain : Bytes) (hp : p = .writing none) (hq : q = .writing (some plain))
      (hy : y = x.store d.key.path (some plain)) (hplain : d.stages.Plain d.body.bytes plain)
  | completes (r : ObjectRecord) (plain : Bytes) (hp : p = .writing (some plain)) (hq : q = .ready plain)
      (hy : y = x.record r) (hr : r.key = d.key) (hid : r.id = d.context.recordId) (hentry : r.entry = d.entry plain)
  | fails (r : ObjectRecord) (hp : (∃ b, p = .writing b) ∨ p = .lost) (hq : q = .failed) (hy : y = x.record r)
      (hr : r.key = d.key) (hid : r.id = d.context.recordId) (hstatus : r.status = .uploadFailed)
  | gives (n : Nat) (hp : p = .writing none ∧ n = 0 ∨ ∃ plain, p = .writing (some plain) ∧ (n = 0 ∨ n = plain.length))
      (hq : q = .lost) (hy : y = x) (hx : ¬ (T.Fits n ∧ (x.object? d.key).isSome = true))
  | strays (bytes : Bytes) (hp : p = .failed ∨ p = .stray ∨ p = .lost) (hq : q = .stray)
      (hy : y = x.store d.key.path (some bytes))

namespace Deposit

variable {d : Deposit}

/-- The calls with which a storage writes. -/
theorem moves_writes (hp : p = .writing none ∨ p = .failed ∨ p = .stray ∨ p = .lost) (hc : c.Writes d.key.path)
    (hput : ∀ path bytes, c = .put path bytes → p = .writing none → d.stages.Plain d.body.bytes bytes)
    (h : x.Allows T c a y) : d.Moves T x p (d.protocol.next p c a) y := by
  have hwaits : ∀ {q}, q = p → y = x → d.Moves T x p q y := fun hq hy => .waits (.inr hp) hq hy
  cases c with
  | intake path => exact hwaits (by rcases hp with rfl | rfl | rfl | rfl <;> rfl) (h.eq h.allows rfl)
  | stage path => exact hwaits (by rcases hp with rfl | rfl | rfl | rfl <;> rfl) (h.eq h.allows rfl)
  | put path bytes =>
    obtain rfl : path = d.key.path := hc
    rcases h.allows with ⟨n, rfl, hy⟩ | ⟨hfails, hy⟩
    · have hy : y = x.store d.key.path (some bytes) := h.eq hy rfl
      rcases hp with rfl | hp
      · exact .puts bytes rfl rfl hy (hput _ bytes rfl rfl)
      · exact .strays bytes hp (by rcases hp with rfl | rfl | rfl <;> rfl) hy
    · refine hwaits ?_ (h.eq hy rfl)
      cases a with
      | ok n => exact absurd rfl (hfails n)
      | failed _ | crashed _ => rcases hp with rfl | rfl | rfl | rfl <;> rfl
  | _ => exact hc.elim

/-- The calls with which the record of an upload is settled. -/
theorem moves_updateObject {r : ObjectRecord} {a : Reply Unit} (hp : d.Permits p (.updateObject r))
    (h : x.Allows T (.updateObject r) a y) : d.Moves T x p (d.protocol.next p (.updateObject r) a) y := by
  rcases Ledger.allows_updateObject h with ⟨-, -, rfl, hy⟩ | ⟨e, hfails, rfl, hy⟩
  · cases p with
    | writing b =>
      cases b with
      | none =>
        obtain ⟨hr, hid, hentry⟩ := hp
        have hstatus : r.status = .uploadFailed := congrArg Entry.status hentry
        exact .fails r (.inl ⟨_, rfl⟩) (by simp [protocol, next, hstatus]) hy hr hid hstatus
      | some plain =>
        obtain ⟨hr, hid, hentry | hentry⟩ := hp
        · have hstatus : r.status = .uploadFailed := congrArg Entry.status hentry
          exact .fails r (.inl ⟨_, rfl⟩) (by simp [protocol, next, hstatus]) hy hr hid hstatus
        · have hstatus : r.status = .ready := congrArg Entry.status hentry
          exact .completes r plain rfl (by simp [protocol, next, hstatus]) hy hr hid hentry
    | lost =>
      obtain ⟨hr, hid, hstatus⟩ := hp
      exact .fails r (.inr rfl) rfl hy hr hid hstatus
    | _ => exact hp.elim
  · cases p with
    | writing b =>
      cases b with
      | none =>
        obtain ⟨hr, -, hentry⟩ := hp
        have hsize : r.size = 0 := congrArg Entry.size hentry
        exact .gives 0 (.inl ⟨rfl, rfl⟩) rfl hy (hr ▸ hsize ▸ hfails)
      | some plain =>
        obtain ⟨hr, -, hentry⟩ := hp
        have hsize : r.size = 0 ∨ r.size = plain.length :=
          hentry.imp (congrArg Entry.size) (congrArg Entry.size)
        exact .gives r.size (.inr ⟨plain, rfl, hsize⟩) rfl hy (hr ▸ hfails)
    | lost => exact .waits (by simp) rfl hy
    | _ => exact hp.elim

/-- The moves of an upload. -/
theorem moves (hp : d.protocol.Permits p c) (h : x.Allows T c a y) :
    d.Moves T x p (d.protocol.next p c a) y := by
  cases p with
  | idle =>
    cases c with
    | getBucket name =>
      obtain rfl : name = d.key.bucket := hp
      obtain ⟨b, rfl, hb, hy⟩ := h.allows
      have hy : y = x := h.eq hy rfl
      cases hready : isReady (.ok b) with
      | true => exact .waits (.inl rfl) (by simp [protocol, next, hready]) hy
      | false =>
        refine .barred rfl (by simp [protocol, next, hready]) hy fun hx => ?_
        cases b with
        | none => cases hb.trans hx.1
        | some b =>
          have hstatus : b.status = .ready := Option.some.inj (hb.trans hx.1)
          simp [isReady, hstatus] at hready
    | insertObject r =>
      obtain ⟨hr, hid, hentry⟩ := hp
      have hbucket : r.bucket = d.key.bucket := congrArg Key.bucket hr
      have hsize : r.size = 0 := congrArg Entry.size hentry
      rcases Ledger.allows_insertObject h with ⟨hfree, hready, -, rfl, hy⟩ | ⟨t, ht, hkept, rfl, hy⟩ | ⟨e, hx, rfl, hy⟩
      · exact .admitted r rfl rfl hy hr hid hentry (hr ▸ hfree) (hbucket ▸ hready)
      · exact .occupied t rfl rfl hy (hr ▸ ht) hkept
      · exact .barred rfl rfl hy (hbucket ▸ hsize ▸ hx)
    | _ => exact hp.elim
  | writing b =>
    cases c with
    | updateObject r => exact moves_updateObject hp h
    | put path bytes =>
      cases b with
      | some _ => exact hp.elim
      | none => exact moves_writes (.inl rfl) hp.1 (fun _ _ hc _ => by cases hc; exact hp.2) h
    | _ =>
      cases b with
      | some _ => exact hp.elim
      | none => exact moves_writes (.inl rfl) hp (fun _ _ hc _ => by cases hc) h
  | failed => exact moves_writes (by simp) hp (fun _ _ _ hp => by cases hp) h
  | stray => exact moves_writes (by simp) hp (fun _ _ _ hp => by cases hp) h
  | lost =>
    cases c with
    | updateObject r => exact moves_updateObject hp h
    | _ => exact moves_writes (by simp) hp (fun _ _ _ hp => by cases hp) h
  | _ => exact hp.elim

/-- An upload does not concern buckets. -/
theorem Moves.bucket? (h : d.Moves T x p q y) : y.bucket? = x.bucket? := by
  cases h <;> · subst y; rfl

/-- A backend that has outlived its upload has done so ever since. -/
theorem Moves.stray (h : d.Moves T x p q y) (hp : p = .stray) : q = .stray := by
  subst hp
  cases h with
  | waits _ hq => exact hq
  | strays _ _ hq => exact hq
  | barred hp => cases hp
  | occupied _ hp => cases hp
  | admitted _ hp => cases hp
  | puts _ hp => cases hp
  | completes _ _ hp => cases hp
  | fails _ hp => simp at hp
  | gives _ hp => simp at hp

end Deposit

/-! ## Other requests -/

namespace Turn

variable {k : Key} {name : String}

/-- The moves of deleting an object. -/
inductive Deletion (k : Key) (x : Ledger) (c : Call) (p q : Phase) (y : Ledger) : Prop
  | waits (hp : p = .idle ∨ ∃ r, p = .erasing r) (hq : q = p) (hy : y = x)
  | finds (r : ObjectRecord) (hp : p = .idle) (hq : q = .found r) (hy : y = x) (hr : r.key = k)
  | marks (r : ObjectRecord) (hp : p = .found r) (hq : q = .erasing r) (hy : y = x.record (r.turn .deleting))
      (hc : c = .updateObject (r.turn .deleting))
  | refused (r : ObjectRecord) (hp : p = .found r) (hq : q = .ended) (hy : y = x)
  | erases (r : ObjectRecord) (v : Snapshot) (hp : p = .erasing r) (hq : q = p)
      (hy : y = { x with toSnapshot := v }) (hv : x.toSnapshot.Loses v (· = k.path))
  | ends (r : ObjectRecord) (t : Status) (hp : p = .erasing r) (hq : q = .ended)
      (ht : t = .deleted ∨ t = .deletionFailed) (hy : y = x.record (r.turn t) ∨ y = x)

theorem deletion_moves (hp : (deletion k).Permits p c) (h : x.Allows T c a y) :
    Deletion k x c p ((deletion k).next p c a) y := by
  cases p with
  | idle =>
    cases c with
    | getObject l =>
      obtain rfl : l = k := hp
      obtain ⟨r, rfl, hr, hkey, hy⟩ := h.allows
      have hy : y = x := h.eq hy rfl
      cases r with
      | none => exact .waits (.inl rfl) rfl hy
      | some r => exact .finds r rfl rfl hy (hkey r rfl)
    | _ => exact hp.elim
  | found r =>
    cases c with
    | updateObject r' =>
      obtain rfl : r' = r.turn .deleting := hp
      rcases Ledger.allows_updateObject h with ⟨-, -, rfl, hy⟩ | ⟨e, -, rfl, hy⟩
      · exact .marks r rfl rfl hy rfl
      · exact .refused r rfl rfl hy
    | _ => exact hp.elim
  | erasing r =>
    cases c with
    | eraseBytes path =>
      obtain rfl : path = k.path := hp
      rcases h.allows with ⟨rfl, hy⟩ | ⟨-, e, rfl, hloses⟩
      · exact .erases r _ rfl rfl (h.eq hy rfl) (.setBytes _ _)
      · exact .erases r _ rfl rfl (h.eq rfl rfl) hloses
    | updateObject r' =>
      obtain ⟨t, ht, rfl⟩ : ∃ t, (t = .deleted ∨ t = .deletionFailed) ∧ r' = r.turn t := by
        rcases hp with rfl | rfl
        · exact ⟨_, .inl rfl, rfl⟩
        · exact ⟨_, .inr rfl, rfl⟩
      rcases Ledger.allows_updateObject h with ⟨-, -, rfl, hy⟩ | ⟨e, -, rfl, hy⟩
      · exact .ends r t rfl rfl ht (.inl hy)
      · exact .ends r t rfl rfl ht (.inr hy)
    | _ => exact hp.elim
  | _ => exact hp.elim

/-- The moves of creating a bucket. -/
inductive Creation (name : String) (x : Ledger) (p q : Phase) (y : Ledger) : Prop
  | waits (hq : q = p) (hy : y = x)
  | creates (hq : q = p) (hy : y = x.bucket name .ready)
      (hfree : (x.bucket? name).all (·.isReplaceable) = true)

theorem creation_moves (hp : (creation name).Permits p c) (h : x.Allows T c a y) :
    Creation name x p ((creation name).next p c a) y := by
  cases p with
  | idle =>
    cases c with
    | makeContainer bucket => exact .waits rfl (h.eq h.allows rfl)
    | createBucket r =>
      obtain ⟨rfl, hstatus⟩ := hp
      rcases h.allows with ⟨hfree, rfl, hy⟩ | ⟨t, -, -, rfl, hy⟩
      · exact .creates rfl (hstatus ▸ h.eq hy rfl) hfree
      · exact .waits rfl (h.eq hy rfl)
    | _ => exact hp.elim
  | _ => exact hp.elim

/-- The moves of deleting a bucket. -/
inductive Removal (name : String) (x : Ledger) (c : Call) (p q : Phase) (y : Ledger) : Prop
  | waits (hp : p = .idle) (hq : q = .idle ∨ q = .ended) (hy : y = x)
  | marks (hp : p = .idle) (hq : q = .sweeping []) (hy : y = x.bucket name .deleting)
      (hc : c = .setBucketStatus name .deleting)
  | clears (l : List ObjectRecord) (v : Snapshot) (hp : p = .sweeping l) (hq : q = p)
      (hy : y = { x with toSnapshot := v }) (hv : x.toSnapshot.Loses v (isInside name · = true))
  | lists (l l' : List ObjectRecord) (hp : p = .sweeping l) (hq : q = .sweeping l') (hy : y = x)
      (hl : ∀ r ∈ l', r.bucket = name)
  | sweeps (l : List ObjectRecord) (r : ObjectRecord) (hp : p = .sweeping l) (hq : q = p) (hr : r ∈ l)
      (hy : y = x.record (r.turn .deleted) ∨ y = x)
  | ends (l : List ObjectRecord) (t : Status) (hp : p = .sweeping l) (hq : q = .ended)
      (ht : t = .deleted ∨ t = .deletionFailed) (hy : y = x.bucket name t ∨ y = x)

theorem loses_clear (v : Snapshot) (name : String) : v.Loses (v.clear name) (isInside name · = true) where
  bucket? := rfl
  object? := rfl
  bytes? path := by
    cases h : isInside name path with
    | true => exact .inr ⟨rfl, by simp [h]⟩
    | false => exact .inl (by simp [h])

theorem removal_moves (hp : (removal name).Permits p c) (h : x.Allows T c a y) :
    Removal name x c p ((removal name).next p c a) y := by
  cases p with
  | idle =>
    cases c with
    | getBucket bucket =>
      obtain ⟨b, rfl, -, hy⟩ := h.allows
      exact .waits rfl (.inl rfl) (h.eq hy rfl)
    | listObjects bucket f =>
      obtain ⟨l, rfl, hy, -⟩ := h.allows
      exact .waits rfl (.inl rfl) (h.eq hy rfl)
    | setBucketStatus bucket t =>
      obtain ⟨rfl, rfl⟩ := hp
      rcases h.allows with ⟨-, rfl, hy⟩ | ⟨-, e, rfl, hy⟩
      · exact .marks rfl rfl (h.eq hy rfl) rfl
      · exact .waits rfl (.inr rfl) (h.eq hy rfl)
    | _ => exact hp.elim
  | sweeping l =>
    cases c with
    | eraseContainer bucket =>
      obtain rfl : bucket = name := hp
      rcases h.allows with ⟨rfl, hy⟩ | ⟨-, e, rfl, hloses⟩
      · exact .clears l _ rfl rfl (h.eq hy rfl) (loses_clear _ _)
      · exact .clears l _ rfl rfl (h.eq rfl rfl) hloses
    | listObjects bucket f =>
      obtain rfl : bucket = name := hp
      obtain ⟨l', rfl, hy, hl, -⟩ := h.allows
      exact .lists l l' rfl rfl (h.eq hy rfl) fun r hr => (hl r hr).1
    | updateObject r =>
      obtain ⟨r, hr, rfl⟩ := hp
      rcases Ledger.allows_updateObject h with ⟨-, -, rfl, hy⟩ | ⟨e, -, rfl, hy⟩
      · exact .sweeps l r rfl rfl hr (.inl hy)
      · exact .sweeps l r rfl rfl hr (.inr hy)
    | setBucketStatus bucket t =>
      obtain ⟨rfl, ht⟩ := hp
      rcases h.allows with ⟨-, rfl, hy⟩ | ⟨-, e, rfl, hy⟩
      · exact .ends l t rfl rfl ht (.inl (h.eq hy rfl))
      · exact .ends l t rfl rfl ht (.inr (h.eq hy rfl))
    | _ => exact hp.elim
  | _ => exact hp.elim

/-- The moves of downloading an object. -/
inductive Retrieval (k : Key) (x : Ledger) (c : Call) (p q : Phase) : Prop
  | finds (r : ObjectRecord) (hp : p = .idle) (hq : q = .found r) (hk : r.key = k)
      (hr : x.object? k = some r.entry) (hready : r.status = .ready) (hc : c = .getObject k)
  | sees (r : ObjectRecord) (hp : p = .found r) (hq : q = p)
  | misses (hp : p = .idle ∨ ∃ r, p = .found r) (hq : q = .ended)
  | opens (r : ObjectRecord) (a : Reply Source) (hp : p = .found r) (hq : q = .opened r a)
      (hc : c = .openBytes k.path) (ha : ∀ bytes, x.bytes? k.path = some bytes →
        ∃ source, a = .ok source ∧ source.Clean ∧ source.bytes = bytes)

/-- A download leaves everything as it is. -/
theorem retrieval_moves (hp : (retrieval k).Permits p c) (h : x.Allows T c a y) :
    Retrieval k x c p ((retrieval k).next p c a) ∧ y = x := by
  cases p with
  | idle =>
    cases c with
    | getObject l =>
      obtain rfl : l = k := hp
      obtain ⟨r, rfl, hr, hkey, hy⟩ := h.allows
      refine ⟨?_, h.eq hy rfl⟩
      cases r with
      | none => exact .misses (.inl rfl) rfl
      | some r =>
        by_cases hready : r.status = .ready
        · exact .finds r rfl (if_pos hready) (hkey r rfl) hr.symm hready rfl
        · exact .misses (.inl rfl) (if_neg hready)
    | _ => exact hp.elim
  | found r =>
    cases c with
    | hasBytes path =>
      obtain rfl : path = k.path := hp
      obtain ⟨rfl, hy⟩ := h.allows
      refine ⟨?_, h.eq hy rfl⟩
      cases (x.bytes? k.path).isSome with
      | true => exact .sees r rfl rfl
      | false => exact .misses (.inr ⟨r, rfl⟩) rfl
    | openBytes path =>
      obtain rfl : path = k.path := hp
      exact ⟨.opens r a rfl rfl rfl h.allows.2, h.eq h.allows.1 rfl⟩
    | _ => exact hp.elim
  | _ => exact hp.elim

end Turn

end Depot
