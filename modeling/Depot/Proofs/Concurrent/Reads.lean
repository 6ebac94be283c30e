import Depot.Proofs.Base32
import Depot.Proofs.Concurrent.Objects

/-!
# Downloads beside uploads and deletions

A download looks for the record of an object, looks whether the storage has its bytes, and opens them, by three
calls, and its answer describes the bytes as the record did that it found first. It is right about them unless
the record was marked in the meantime, for then the object may be gone, or another one may be in its place.

## Main results

* `Watched.step` — what a call preserves, for a download that is under way.
* `Registry.pull_truthful` — a download that was not overtaken says what it sends.
* `Store.pull_torn` — not so, if the object was deleted and uploaded again before its bytes were opened.
-/

namespace Depot

open Download (served)
open Upload (recordedHash)

/-! ## Describing bytes -/

/-- Whether a record states the length and the hash of a payload. -/
structure Entry.Describes (e : Entry) (plain : Bytes) : Prop where
  size : e.size = plain.length
  hash : e.hash = some (Base32.encode (Sha256.digest plain))

/-- Whether an object that is ready has a record that describes its bytes. -/
def Ledger.Described (x : Ledger) (k : Key) : Prop :=
  ∀ e, x.object? k = some e → e.status = .ready → ∃ plain, x.bytes? k.path = some plain ∧ e.Describes plain

/-- The answer to an upload or a download. -/
def Result.answer? : Result → Option Answer
  | upload e _ | pull e => e.answer?
  | _ => none

/-- Whether an answer names the length and the hash of the payload that it sends. -/
def Answer.Truthful (b : Answer) : Prop :=
  ∃ plain, (∀ n, n ≠ 0 → ∃ sent, b.send n = (sent, none) ∧ b.Conveys sent plain) ∧
    b.fields.get? Header.size = some (toString plain.length) ∧
    b.fields.get? Header.hash = some (Base32.encode (Sha256.digest plain))

theorem encode_digest_ne_empty (data : Bytes) : Base32.encode (Sha256.digest data) ≠ "" := by
  obtain ⟨b, rest, hdigest⟩ : ∃ b rest, Sha256.digest data = b :: rest := ⟨_, _, rfl⟩
  exact Base32.encode_ne_empty (hdigest ▸ List.cons_ne_nil b rest)

theorem served_truthful {order : Metadata.Order} {session : Session} {r : ObjectRecord} {source : Source} (hs : source.Clean)
    (h : r.entry.Describes source.bytes) : (served order session r source).Truthful := by
  have hsize : r.size = source.bytes.length := h.size
  have hhash : r.hash = some (Base32.encode (Sha256.digest source.bytes)) := h.hash
  refine ⟨source.bytes, fun n hn => served_conveys hs hn, ?_, ?_⟩
  · rw [get?_served (by decide) (by decide) (by decide) (by decide) (by decide), ← hsize]
    exact r.get?_toFields_size order
  · rw [get?_served (by decide) (by decide) (by decide) (by decide) (by decide), r.get?_toFields_hash, hhash]
    exact Option.filter_some_pos (by simpa using encode_digest_ne_empty _)

/-- An answer that sends bytes as they are names the length of what it sends. -/
theorem Answer.Truthful.size_eq {order : Metadata.Order} {session : Session} {r : ObjectRecord} {source : Source}
    (h : (served order session r source).Truthful) (hout : session.compressOut = false) (hs : source.Clean) :
    toString r.size = toString source.bytes.length := by
  obtain ⟨plain, hsends, hsize, -⟩ := h
  obtain ⟨sent, hsend, hconveys⟩ := hsends 1 Nat.one_ne_zero
  obtain ⟨bytes, hbytes, hsource⟩ := @served_conveys order session r source hs 1 Nat.one_ne_zero
  obtain rfl : bytes = sent := congrArg Prod.fst (hbytes.symm.trans hsend)
  rw [Answer.Conveys, get?_served_contentEncoding, hout, if_neg (by decide)] at hconveys hsource
  rw [get?_served (by decide) (by decide) (by decide) (by decide) (by decide), ObjectRecord.get?_toFields_size,
    ← hconveys, hsource] at hsize
  exact Option.some.inj hsize

/-- The record of an upload whose payload is hashed describes it. -/
theorem Deposit.describes {d : Deposit} (hdigest : d.context.digest = true) (hhash : d.session.declaredHash = none)
    (plain : Bytes) : (d.entry plain).Describes plain where
  size := rfl
  hash := by simp [entry, recordedHash, stages, Upload.stagesOf, hdigest, hhash]

/-! ## Overtaking -/

/-- What a call is to a download. -/
inductive Moment where
  | looks
  | opens
  /-- A record is marked as about to be deleted. -/
  | marks
  | other
  deriving DecidableEq

section Reading

variable {ι : Type} [DecidableEq ι] {T : Terms} {t : ι → Turn} {k : Key} {p : ι → Phase} {x₀ x y : Ledger}
  {log : List (Made ι)} {q : Phase} {i j : ι} {c : Call}

/-- What a call is to the download `i`. -/
def Made.moment (i : ι) (m : Made ι) : Moment :=
  match m.call with
  | .openBytes _ => if m.task = i then .opens else .other
  | .getObject _ => if m.task = i then .looks else .other
  | c => if c.marked?.isSome then .marks else .other

/-- Whether a record was marked after the download `i` has looked for it, and before it opened the bytes. -/
def Overtaken (i : ι) (log : List (Made ι)) : Prop := [.looks, .marks, .opens].Sublist (log.map (Made.moment i))

instance decidableOvertaken (i : ι) (log : List (Made ι)) : Decidable (Overtaken i log) :=
  inferInstanceAs (Decidable ([.looks, .marks, .opens].Sublist (log.map (Made.moment i))))

/-- What a download has seen, unless it has been overtaken. -/
def Sees (i : ι) (k : Key) (x : Ledger) (log : List (Made ι)) : Phase → Prop
  | .idle | .ended => True
  | .found r => [.looks].Sublist (log.map (Made.moment i)) ∧
    ([.looks, .marks].Sublist (log.map (Made.moment i)) ∨ x.object? k = some r.entry ∧ r.status = .ready)
  | .opened r a =>
    Overtaken i log ∨ ∃ source, a = .ok source ∧ source.Clean ∧ r.entry.Describes source.bytes
  | _ => False

/-- A call of another request, which leaves a ready object as it is unless it marks its record. -/
theorem Sees.other {m : Made ι} (h : Sees i k x log q)
    (hy : m.moment i = .marks ∨ ∀ e, x.object? k = some e → e.status = .ready → y.object? k = some e) :
    Sees i k y (log ++ [m]) q := by
  have hlog : (log.map (Made.moment i)).Sublist ((log ++ [m]).map (Made.moment i)) :=
    (List.sublist_append_left log [m]).map _
  cases q with
  | found r =>
    obtain ⟨hlooks, hseen⟩ := h
    refine ⟨hlooks.trans hlog, ?_⟩
    rcases hseen with hmarked | ⟨hr, hready⟩
    · exact .inl (hmarked.trans hlog)
    · refine hy.imp (fun hm => ?_) fun hy => ⟨hy _ hr hready, hready⟩
      rw [List.map_append, List.map_singleton, hm]
      exact hlooks.append (.refl [Moment.marks])
  | opened r a => exact h.imp_left fun hover => hover.trans hlog
  | idle | ended => trivial
  | _ => exact h.elim

/-- A call of the download itself. -/
theorem Sees.own {a : Reply c.Answer} (h : Sees i k x log (p i)) (hmove : Turn.Retrieval k x c (p i) q)
    (hx : x.Described k) : Sees i k x (log ++ [⟨i, c, a⟩]) q := by
  have hlog : (log.map (Made.moment i)).Sublist ((log ++ [⟨i, c, a⟩] : List (Made ι)).map (Made.moment i)) :=
    (List.sublist_append_left log _).map _
  cases hmove with
  | finds r hp hq hk hr hready hc =>
    subst hq hc
    refine ⟨?_, .inr ⟨hr, hready⟩⟩
    rw [List.map_append, List.map_singleton]
    simp [Made.moment]
  | sees r hp hq =>
    rw [hp] at hq h
    subst hq
    exact ⟨h.1.trans hlog, h.2.imp_left fun hmarked => hmarked.trans hlog⟩
  | misses hp hq =>
    subst hq
    trivial
  | opens r b hp hq hc hopened =>
    rw [hp] at h
    subst hq hc
    rcases h.2 with hmarked | ⟨hr, hready⟩
    · refine .inl ?_
      rw [Overtaken, List.map_append, List.map_singleton]
      exact hmarked.append (by simp [Made.moment])
    · obtain ⟨plain, hplain, hdescribes⟩ := hx r.entry hr hready
      obtain ⟨source, rfl, hclean, rfl⟩ := hopened plain hplain
      exact .inr ⟨source, rfl, hclean, hdescribes⟩

omit [DecidableEq ι] in
/-- A request leaves a ready object as it is, unless it marks its record. -/
theorem Held.keeps_ready {a : Reply c.Answer} {e : Entry} (h : Held t p x) (hon : ∀ i, (t i).key? = some k)
    (hp : (t i).protocol.Permits (p i) c) (ha : x.Allows T c a y) (he : x.object? k = some e)
    (hready : e.status = .ready) : c.marked?.isSome = true ∨ y.object? k = some e := by
  -- nobody holds the record, so nobody has anything to say of it
  have hnone : (p i).held? = none := h.nobody (k := k) (fun e' he' => by
    obtain rfl := Option.some.inj (he.symm.trans he')
    simp [hready]) i (hon i)
  cases hi : t i with
  | upload d =>
    obtain rfl : d.key = k := Turn.key_eq hon hi rfl
    rw [hi] at hp
    cases Deposit.moves hp ha with
    | admitted r _ _ _ _ _ _ hfree =>
      rw [he, Option.all_some, hready] at hfree
      cases hfree
    | completes r plain hp => simp [hp, Phase.held?] at hnone
    | fails r hp => rcases hp with ⟨b, hp⟩ | hp <;> simp [hp, Phase.held?] at hnone
    | waits _ _ hy => exact .inr (hy ▸ he)
    | barred _ _ hy => exact .inr (hy ▸ he)
    | occupied _ _ _ hy => exact .inr (hy ▸ he)
    | puts _ _ _ hy => exact .inr (hy ▸ he)
    | gives _ _ _ hy => exact .inr (hy ▸ he)
    | strays _ _ _ hy => exact .inr (hy ▸ he)
  | deleteObject l =>
    rw [hi] at hp
    cases Turn.deletion_moves hp ha with
    | marks r _ _ _ hc => exact .inl (hc ▸ rfl)
    | ends r u hp => simp [hp, Phase.held?] at hnone
    | erases r v hp => simp [hp, Phase.held?] at hnone
    | waits _ _ hy => exact .inr (hy ▸ he)
    | finds _ _ _ hy => exact .inr (hy ▸ he)
    | refused _ _ _ hy => exact .inr (hy ▸ he)
  | pull r =>
    rw [hi] at hp
    exact .inr ((Turn.retrieval_moves hp ha).2 ▸ he)
  | createBucket _ _ _ | deleteBucket _ => cases (congrArg Turn.key? hi).symm.trans (hon i)

omit [DecidableEq ι] in
/-- A genuine object is described by its record, if the payloads that are uploaded are hashed. -/
theorem Genuine.described (h : Genuine t k x₀ x) (hx₀ : x₀.Described k)
    (hhashed : ∀ i d, t i = .upload d → d.context.digest = true ∧ d.session.declaredHash = none) :
    x.Described k := by
  intro e he hready
  rcases h with ⟨hobject, -, hbytes⟩ | ⟨i, d, plain, hi, -, hentry, -, hbytes⟩
  · rw [hbytes]
    exact hx₀ e (hobject ▸ he) hready
  · obtain rfl := Option.some.inj (he.symm.trans hentry)
    exact ⟨plain, hbytes, d.describes (hhashed i d hi).1 (hhashed i d hi).2 plain⟩

theorem moment_of_marked {a : Reply c.Answer} (h : c.marked?.isSome = true) :
    Made.moment i ⟨j, c, a⟩ = .marks := by
  cases c with
  | updateObject r =>
    rw [Made.moment]
    exact if_pos h
  | _ => cases h

/-- What every call preserves, for the download `i`. -/
structure Watched (t : ι → Turn) (k : Key) (x₀ : Ledger) (i : ι) (p : ι → Phase) (x : Ledger)
    (log : List (Made ι)) : Prop where
  safe : Safe t k x₀ p x
  sees : Stray t p ∨ Sees i k x log (p i)

theorem Watched.step {r : Retrieval} {a : Reply c.Answer} (h : Watched t k x₀ i p x log) (hi : t i = .pull r)
    (hon : ∀ i, (t i).key? = some k) (hx₀ : x₀.Described k)
    (hhashed : ∀ i d, t i = .upload d → d.context.digest = true ∧ d.session.declaredHash = none)
    (hp : (t j).protocol.Permits (p j) c) (hok : x.MayMark c) (ha : x.Allows T c a y) :
    Watched t k x₀ i (Function.update p j ((t j).protocol.next (p j) c a)) y (log ++ [⟨j, c, a⟩]) := by
  refine ⟨h.safe.step hon hp hok ha, ?_⟩
  rcases h.sees with hstray | hsees
  · exact .inl (hstray.step hp ha)
  · rcases h.safe.tracked with hstray | htracked
    · exact .inl (hstray.step hp ha)
    · refine .inr ?_
      by_cases hij : i = j
      · -- the download goes on, and finds what is there as its record says
        subst hij
        have hdescribed : x.Described k := fun e he hready =>
          (htracked.ready e he hready).described hx₀ hhashed e he hready
        obtain rfl : r.key = k := Turn.key_eq hon hi rfl
        rw [hi] at hp ⊢
        obtain ⟨hmove, rfl⟩ := Turn.retrieval_moves hp ha
        rw [Function.update_self]
        exact hsees.own hmove hdescribed
      · rw [Function.update_of_ne hij]
        refine hsees.other ?_
        cases hmarked : c.marked?.isSome with
        | true => exact .inl (moment_of_marked hmarked)
        | false =>
          refine .inr fun e he hready => ?_
          exact (h.safe.held.keeps_ready hon hp ha he hready).resolve_left (by simp [hmarked])

/-- Uploads, deletions and downloads of one name that run beside each other, in whatever order they make their
calls, as long as a deletion marks the record where it may and no upload waits for too long: a download that is not
overtaken by a deletion finds nothing, or sends a payload whose length and hash it names. -/
theorem Registry.pull_truthful {σ : Type} {perform : (c : Call) → σ → Reply c.Answer × σ} (R : Registry T perform)
    (hon : ∀ i, (t i).key? = some k)
    (hhashed : ∀ i d, t i = .upload d → d.context.digest = true ∧ d.session.declaredHash = none) {s : σ}
    (hs : R.Sound s) (hdescribed : (R.ledger s).Described k) {r : Retrieval} (hi : t i = .pull r)
    (schedule : List ι) :
    let z₀ : Scene ι σ Result := { tasks := fun i => (t i).course, store := s }
    let z := Scene.run perform schedule z₀
    Scene.Along perform (fun s c => (R.ledger s).MayMark c) schedule z₀ → z.Over → z.Prompt → ¬ Overtaken i z.log →
      ∃ a, (z.tasks i).result?.bind Result.answer? = some a ∧ (a.status = 404 ∨ a.status = 200 ∧ a.Truthful) := by
  intro z₀ z hok hover hprompt hovertaken
  obtain ⟨-, p, hz, hp⟩ := Scene.run_induction R (fun p x log => Watched t k (R.ledger s) i p x log)
    (fun _ hok h hp ha => h.step hi hon hdescribed hhashed hp hok ha) hs (Turn.follows_courses t s)
    ⟨.start _, .inr trivial⟩ hok
  have hsees : Sees i k (R.ledger z.store) z.log (p i) := hp.sees.resolve_left (hz.not_stray hover hprompt)
  obtain ⟨result, -, hresult⟩ := hover.done i
  have hends : Turn.Ends (.pull r) result (p i) := hi ▸ hz.of_done hresult
  rw [hresult, Option.bind_some]
  cases result with
  | pull e =>
    cases hphase : p i with
    | ended =>
      rw [hphase] at hends
      obtain ⟨a, ha, hstatus⟩ := hends
      exact ⟨a, ha, .inl hstatus⟩
    | opened x b =>
      rw [hphase] at hends hsees
      obtain ⟨source, rfl, hclean, hdescribes⟩ := hsees.resolve_left hovertaken
      obtain rfl := hends
      exact ⟨_, rfl, .inr ⟨rfl, served_truthful hclean hdescribes⟩⟩
    | lost =>
      rw [hphase] at hsees
      exact hsees.elim
    | _ =>
      rw [hphase] at hends
      exact hends.elim
  | _ => exact hends.elim

end Reading

namespace Sample

def retrieval : Retrieval := { context := context, key := key }

/-- An object is downloaded while it is deleted and uploaded again. -/
def visit (i : Fin 3) : Turn := [.pull retrieval, .deleteObject key, .upload successor][i]

theorem described_objectStore : ((Store.registry {}).ledger objectStore).Described key := by
  intro e he hready
  obtain rfl := Option.some.inj he
  exact ⟨[1, 2, 3], rfl, rfl, rfl⟩

end Sample

/-- A deletion has found the record before the download does, and marks it after the bytes were opened. -/
theorem Store.pull_truthful_before_deletion :
    let z : Scene (Fin 3) Store Result := Scene.run perform [1, 0, 2, 0, 0, 1, 1, 1, 2, 2, 2, 2, 2]
      { tasks := fun i => (Sample.visit i).course, store := Sample.objectStore }
    ∃ a, (z.tasks 0).result?.bind Result.answer? = some a ∧ a.status = 200 ∧ a.Truthful := by
  have hon : ∀ i, (Sample.visit i).key? = some Sample.key
    | 0 | 1 | 2 => rfl
  have hhashed : ∀ i d, Sample.visit i = .upload d → d.context.digest = true ∧ d.session.declaredHash = none := by
    intro i d hd
    match i with
    | 0 | 1 => cases hd
    | 2 =>
      obtain rfl : Sample.successor = d := Turn.upload.inj hd
      exact ⟨rfl, by decide⟩
  intro z
  obtain ⟨a, ha, hanswer⟩ := (registry {}).pull_truthful (t := Sample.visit) (k := Sample.key) hon hhashed
    Sample.sound_objectStore Sample.described_objectStore (i := 0) rfl [1, 0, 2, 0, 0, 1, 1, 1, 2, 2, 2, 2, 2]
    (by decide) (by decide) (by decide) (by decide)
  have hstatus : ((z.tasks 0).result?.bind Result.answer?).map (·.status) = some 200 := by decide
  refine ⟨a, ha, hanswer.resolve_left fun hmissing => ?_⟩
  rw [ha, Option.map_some, hmissing] at hstatus
  cases hstatus

/-- A download has found the record, and that its bytes are there; the object is deleted and uploaded again; and
then the download opens the bytes. It names the length of the old ones, and sends the new ones. -/
theorem Store.pull_torn :
    let z : Scene (Fin 3) Store Result := Scene.run perform [0, 0, 1, 1, 1, 1, 2, 2, 2, 2, 2, 2, 0]
      { tasks := fun i => (Sample.visit i).course, store := Sample.objectStore }
    z.Over ∧ z.Prompt ∧ ∃ a, (z.tasks 0).result?.bind Result.answer? = some a ∧ a.status = 200 ∧ ¬ a.Truthful := by
  intro z
  have hanswer : (z.tasks 0).result?.bind Result.answer? =
      some (served Sample.retrieval.context.order Sample.retrieval.session Sample.record (.ofBytes [4, 5])) := rfl
  have hover : z.Over := by decide
  have hprompt : z.Prompt := by decide
  have htorn :
      ¬ (served Sample.retrieval.context.order Sample.retrieval.session Sample.record (.ofBytes [4, 5])).Truthful :=
    fun h => absurd (h.size_eq (by decide) (Source.clean_ofBytes _)) (by decide)
  exact ⟨hover, hprompt, _, hanswer, rfl, htorn⟩

end Depot
