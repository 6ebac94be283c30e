import Depot.Proofs.Stream.Parties
import Depot.Proofs.Stream.Steady
import Depot.Proofs.Zstd.Chunking
import Depot.Stream.Reading

/-!
# Any chunks and any buffers

A stream that is read to its end, with buffers of any sizes and again after every interruption. Neither the pieces of
its source nor the buffers make a difference: the reader gets the output of the same plaintext, and whoever waits for
the stream its length and its digest; or else the payload cannot be decoded, and both of them are told so.

## Main definitions

* `Stream.Reads` — reading on to the end.
* `Stream.Delivers`, `Stream.Undecodable` — how it can end.

## Main results

* `Stream.UnderWay.reads` — every stream over a source that will end is read to an end.
* `Stream.chunking_independent` — the end is the same for every source of the same bytes and for all buffers.
-/

namespace Depot

/-- A source of these bytes, in any pieces, some reads of which are interrupted. -/
structure Source.Supplies (s : Source) (wire : Bytes) : Prop where
  closed : s.isOpen = false
  faultless : s.Faultless
  bytes : s.bytes = wire

namespace Stream

variable {st : Stages} {wire given plain out : Bytes} {s t u : Stream} {n : Nat} {r : ReadResult} {e : ReadError}
  {sizes : Nat → Nat} {x y : Reading}

/-- A new stream over a source, with these stages. -/
def staged (source : Source) (st : Stages) : Stream := { pipeline := { source := source, stages := st } }

/-- What it leads to when a stream is read to its end, or to an error, with buffers of these sizes one after another.
An interrupted read is followed by the next one. -/
inductive Reads : (Nat → Nat) → Stream → Reading → Prop
  | ended {sizes : Nat → Nat} {s t : Stream} (h : s.read (sizes 0) = (.ok [], t)) : Reads sizes s ⟨[], none, t⟩
  | more {sizes : Nat → Nat} {s t : Stream} {out : Bytes} {x : Reading} (h : s.read (sizes 0) = (.ok out, t))
      (hout : out ≠ []) (next : Reads (fun k => sizes (k + 1)) t x) : Reads sizes s { x with bytes := out ++ x.bytes }
  | again {sizes : Nat → Nat} {s t : Stream} {e : ReadError} {x : Reading} (h : s.read (sizes 0) = (.error e, t))
      (he : e.kind = .interrupted) (next : Reads (fun k => sizes (k + 1)) t x) : Reads sizes s x
  | failed {sizes : Nat → Nat} {s t : Stream} {e : ReadError} (h : s.read (sizes 0) = (.error e, t))
      (he : e.kind ≠ .interrupted) : Reads sizes s ⟨[], some e, t⟩

/-- Reading leads to one thing only. -/
theorem Reads.unique (h : Reads sizes s x) (h' : Reads sizes s y) : x = y := by
  induction h generalizing y with
  | ended h =>
    cases h' with
    | ended h' => rw [(Prod.mk.inj (h.symm.trans h')).2]
    | more h' hout _ => exact absurd (Except.ok.inj (Prod.mk.inj (h'.symm.trans h)).1) hout
    | again h' _ _ | failed h' _ => cases h.symm.trans h'
  | more h hout _ ih =>
    cases h' with
    | ended h' => exact absurd (Except.ok.inj (Prod.mk.inj (h.symm.trans h')).1) hout
    | more h' _ next' =>
      obtain ⟨hsame, rfl⟩ := Prod.mk.inj (h.symm.trans h')
      rw [Except.ok.inj hsame, ih next']
    | again h' _ _ | failed h' _ => cases h.symm.trans h'
  | again h he _ ih =>
    cases h' with
    | ended h' | more h' _ _ => cases h.symm.trans h'
    | again h' _ next' =>
      obtain ⟨-, rfl⟩ := Prod.mk.inj (h.symm.trans h')
      exact ih next'
    | failed h' he' =>
      obtain ⟨hsame, -⟩ := Prod.mk.inj (h.symm.trans h')
      exact absurd (Except.error.inj hsame ▸ he) he'
  | failed h he =>
    cases h' with
    | ended h' | more h' _ _ => cases h.symm.trans h'
    | again h' he' _ =>
      obtain ⟨hsame, -⟩ := Prod.mk.inj (h'.symm.trans h)
      exact absurd (Except.error.inj hsame ▸ he') he
    | failed h' _ =>
      obtain ⟨hsame, rfl⟩ := Prod.mk.inj (h.symm.trans h')
      rw [Except.error.inj hsame]

/-! ## One read -/

/-- A stream under way over a source that will end and raises no errors; `given` was read of it. -/
structure UnderWay (st : Stages) (wire : Bytes) (s : Stream) (given : Bytes) : Prop where
  pending : s.barrier = .pending
  opened : s.pipeline.finished = false
  steady : s.pipeline.build.inflate.Steady s.pipeline.build.source
  flows : ∃ tapped, s.pipeline.build.Flows st wire tapped given
  refuses : s.pipeline.build.Refuses → st.decompress = true ∧ Zstd.Ends {} wire none

theorem underWay_staged {source : Source} (h : source.Supplies wire) (st : Stages) :
    UnderWay st wire (staged source st) [] where
  pending := rfl
  opened := rfl
  steady := ⟨⟨h.faultless, rfl, fun he => by cases he⟩, h.closed, Zstd.Decoder.rested_start⟩
  flows := ⟨[], h.bytes ▸ Pipeline.flows_build source st⟩
  refuses hrefuses := ⟨hrefuses.1, h.bytes ▸ (Inflate.comes_of_not_ended rfl).mp hrefuses.2⟩

/-- How a read of a stream under way can end: it is still under way, it is complete, or its payload cannot be
decoded. -/
inductive Went (st : Stages) (wire : Bytes) (s : Stream) (given : Bytes) : ReadResult → Stream → Prop
  | on {r : ReadResult} {t : Stream} (hgoes : r.GoesOn) (h : UnderWay st wire t (given ++ r.bytes))
      (hnearer : t.pipeline.build.remaining < s.pipeline.build.remaining) : Went st wire s given r t
  | ended {plain : Bytes} {t : Stream} (hplain : st.Plain wire plain) (hgiven : given = st.output plain)
      (hb : t.barrier = .completing st plain) : Went st wire s given (.ok []) t
  | failed {e : ReadError} {t : Stream} {m : String} (he : e.kind ≠ .interrupted) (hcodec : e.codec = true)
      (hrefused : st.decompress = true ∧ Zstd.Ends {} wire none) (hb : t.barrier = .failed (.read true m)) :
      Went st wire s given (.error e) t

/-- A read of the stages after which it goes on. -/
theorem UnderWay.on {p : Pipeline} (h : UnderWay st wire s given) (hn : n ≠ 0)
    (hr : s.pipeline.build.readBuilt n = (r, p)) (hgoes : r.GoesOn) :
    Went st wire s given r { s with started := true, pipeline := p } := by
  obtain ⟨tapped, hflows⟩ := h.flows
  obtain ⟨tapped', hmore, -⟩ := hflows.readBuilt hr
  have hnext := hmore fun hend => hgoes.1 hend.1
  have honward := Pipeline.onward_readBuilt h.steady hflows hn hr
  have hbuilt : p.build = p := Pipeline.build_of_built hnext.built
  refine .on hgoes ⟨h.pending, ?_, ?_, ⟨tapped', ?_⟩, ?_⟩ ?_
  · show p.finished = false
    rw [(Pipeline.kept_readBuilt hr).finished, Pipeline.finished_build, h.opened]
  · show p.build.inflate.Steady p.build.source
    rw [hbuilt]
    exact honward.steady
  · show p.build.Flows _ _ _ _
    rw [hbuilt]
    exact hnext
  · show p.build.Refuses → _
    rw [hbuilt]
    exact fun hrefuses => h.refuses (honward.refuses hrefuses)
  · show p.build.remaining < _
    rw [hbuilt]
    exact honward.nearer hgoes

theorem UnderWay.read (h : UnderWay st wire s given) (hn : n ≠ 0) (hr : s.read n = (r, t)) :
    Went st wire s given r t := by
  obtain ⟨tapped, hflows⟩ := h.flows
  have hpull : s.pull n = (r, t) := by rwa [Stream.read, mayRead, h.pending] at hr
  rw [pull, work, if_neg (by simp [h.opened])] at hpull
  generalize hbuilt : s.pipeline.build.readBuilt n = y at hpull
  obtain ⟨a, p⟩ := y
  obtain ⟨plain, -, hend⟩ := hflows.readBuilt hbuilt
  cases a with
  | ok out =>
    by_cases hout : out = []
    · subst hout
      simp only [List.isEmpty_nil, ne_eq, hn, not_false_eq_true, and_self, if_true, Option.elim, fire, h.pending] at hpull
      obtain ⟨rfl, rfl⟩ := Prod.mk.inj hpull
      have hdone := hend rfl hn
      exact .ended hdone.plain hdone.output hdone.completed
    · simp only [List.isEmpty_iff, hout, false_and, if_false, Option.elim] at hpull
      obtain ⟨rfl, rfl⟩ := Prod.mk.inj hpull
      exact h.on hn hbuilt ⟨fun hnil => hout (Except.ok.inj hnil), fun _ he => by cases he⟩
  | error e =>
    by_cases he : e.kind = .interrupted
    · have htransient : e.kind.isTransient = true := by rw [he]; rfl
      simp only [htransient, if_true, Option.elim] at hpull
      obtain ⟨rfl, rfl⟩ := Prod.mk.inj hpull
      exact h.on hn hbuilt ⟨(fun hnil => by cases hnil), fun _ heq => Except.error.inj heq ▸ he⟩
    · obtain ⟨htransient, hcodec, hrefuses⟩ := (Pipeline.onward_readBuilt h.steady hflows hn hbuilt).failed e rfl he
      simp only [htransient, Bool.false_eq_true, if_false, Option.elim, fire, h.pending, hcodec] at hpull
      obtain ⟨rfl, rfl⟩ := Prod.mk.inj hpull
      exact .failed he hcodec (h.refuses hrefuses) rfl

/-! ## Reading on to the end -/

/-- What it leads to when a stream is read whose payload stands for `plain`. -/
structure Delivers (st : Stages) (plain : Bytes) (x : Reading) : Prop where
  error : x.error = none
  output : if st.compress then ∀ y, Zstd.Decodes x.bytes y ↔ y = plain else x.bytes = plain
  count : ∀ ms, x.stream.waitFor ms = (.ok plain.length, x.stream)
  digest : st.digest = true → x.stream.digest = .ok (Base32.encode (Sha256.digest plain))

/-- What it leads to when a stream is read whose payload cannot be decoded. -/
structure Undecodable (x : Reading) : Prop where
  error : ∃ e, x.error = some e ∧ e.codec = true
  wait : ∃ m, ∀ ms, x.stream.waitFor ms = (.error (.codec m), x.stream)

theorem delivers_of_completing (hb : t.barrier = .completing st plain) :
    Delivers st plain ⟨st.output plain, none, t⟩ where
  error := rfl
  output := by
    rw [Stages.output]
    split
    · exact fun y => Zstd.decodes_encode_iff
    · rfl
  count ms := by simp [waitFor, outcome?, hb, Barrier.completing]
  digest hd := by simp [Stream.digest, hb, Barrier.completing, hd]

theorem undecodable_of_failed {m : String} (hcodec : e.codec = true) (hb : t.barrier = .failed (.read true m)) :
    Undecodable ⟨given, some e, t⟩ where
  error := ⟨e, rfl, hcodec⟩
  wait := ⟨m, fun ms => by simp [waitFor, outcome?, hb, Failure.error]⟩

/-- Every stream under way is read to an end. -/
theorem UnderWay.reads (h : UnderWay st wire s given) (hsizes : ∀ k, sizes k ≠ 0) : ∃ x, Reads sizes s x ∧
    ((∃ plain, st.Plain wire plain ∧ Delivers st plain { x with bytes := given ++ x.bytes }) ∨
      (st.decompress = true ∧ Zstd.Ends {} wire none) ∧ Undecodable x) := by
  -- on what is left to be read, which every read lowers that is followed by another one
  induction hremaining : s.pipeline.build.remaining using WellFoundedLT.induction generalizing s given sizes with
  | ind m ih =>
    subst hremaining
    generalize hread : s.read (sizes 0) = y
    obtain ⟨r, t⟩ := y
    cases h.read (hsizes 0) hread with
    | on hgoes hnext hnearer =>
      obtain ⟨x, hreads, hend⟩ := ih _ hnearer hnext (fun k => hsizes (k + 1)) rfl
      cases r with
      | ok out =>
        refine ⟨_, .more hread (fun hnil => hgoes.1 (congrArg _ hnil)) hreads, ?_⟩
        rw [ReadResult.bytes_ok, List.append_assoc] at hend
        exact hend.imp_right fun hfailed => hfailed.imp_right fun hx => ⟨hx.error, hx.wait⟩
      | error e =>
        refine ⟨x, .again hread (hgoes.2 e rfl) hreads, ?_⟩
        rwa [ReadResult.bytes_error, List.append_nil] at hend
    | @ended plain _ hplain hgiven hb =>
      refine ⟨_, .ended hread, .inl ⟨plain, hplain, ?_⟩⟩
      rw [List.append_nil, hgiven]
      exact delivers_of_completing hb
    | failed he hcodec hrefused hb => exact ⟨_, .failed hread he, .inr ⟨hrefused, undecodable_of_failed hcodec hb⟩⟩

section Plaintexts

variable (hwire : st.decompress = true → Zstd.ChunkingIndependent wire)
include hwire

/-- A payload that decodes in one way only has one plaintext at most. -/
theorem plain_unique {plain' : Bytes} (h : st.Plain wire plain) (h' : st.Plain wire plain') : plain = plain' := by
  rw [Stages.Plain] at h h'
  split at h
  · rename_i hd
    rw [if_pos hd] at h'
    exact Option.some.inj (hwire hd _ _ (Zstd.ends_some_iff.mpr h) (Zstd.ends_some_iff.mpr h'))
  · rename_i hd
    rw [if_neg hd] at h'
    exact h.trans h'.symm

/-- A payload that decodes in one way is not refused in another one. -/
theorem not_plain_of_refused (h : st.decompress = true ∧ Zstd.Ends {} wire none) : ¬ st.Plain wire plain := by
  obtain ⟨hd, hnone⟩ := h
  rw [Stages.Plain, if_pos hd]
  intro hplain
  cases hwire hd _ _ hnone (Zstd.ends_some_iff.mpr hplain)

end Plaintexts

/-- The result of a stream depends neither on the pieces of its source nor on the sizes of the buffers, nor on where
reads are interrupted: all that is read of it is the output of one plaintext, of which whoever waits gets the length
and the digest; or the payload has no plaintext, and reading it fails in the codec. -/
theorem chunking_independent (st : Stages) (sizes sizes' : Nat → Nat) {wire : Bytes} {source source' : Source}
    (hwire : st.decompress = true → Zstd.ChunkingIndependent wire) (hsource : source.Supplies wire)
    (hsource' : source'.Supplies wire) (hsizes : ∀ k, sizes k ≠ 0) (hsizes' : ∀ k, sizes' k ≠ 0) :
    ∃ x x', (∀ y, Reads sizes (staged source st) y ↔ y = x) ∧ (∀ y, Reads sizes' (staged source' st) y ↔ y = x') ∧
      ((∃ plain, (∀ y, st.Plain wire y ↔ y = plain) ∧ Delivers st plain x ∧ Delivers st plain x') ∨
        (∀ plain, ¬ st.Plain wire plain) ∧ Undecodable x ∧ Undecodable x') := by
  obtain ⟨x, hx, hend⟩ := (underWay_staged hsource st).reads hsizes
  obtain ⟨x', hx', hend'⟩ := (underWay_staged hsource' st).reads hsizes'
  have hunique {sizes : Nat → Nat} {s : Stream} {x : Reading} (h : Reads sizes s x) (y : Reading) :
      Reads sizes s y ↔ y = x := ⟨fun hy => hy.unique h, fun hy => hy ▸ h⟩
  refine ⟨x, x', hunique hx, hunique hx', ?_⟩
  rcases hend with ⟨plain, hplain, hdelivers⟩ | ⟨hrefused, hfails⟩ <;>
    rcases hend' with ⟨plain', hplain', hdelivers'⟩ | ⟨hrefused', hfails'⟩
  · obtain rfl := plain_unique hwire hplain hplain'
    exact .inl ⟨plain, fun y => ⟨fun hy => plain_unique hwire hy hplain, fun hy => hy ▸ hplain⟩, hdelivers, hdelivers'⟩
  · exact absurd hplain (not_plain_of_refused hwire hrefused')
  · exact absurd hplain' (not_plain_of_refused hwire hrefused)
  · exact .inr ⟨fun _ => not_plain_of_refused hwire hrefused, hfails, hfails'⟩

/-- Two bytes that were compressed, behind an interruption and in one piece, or interrupted in between; read a byte at
a time, or with buffers that grow. -/
theorem chunking_independent_two : ∃ x x',
    Reads (fun _ => 1) (staged ⟨[.failure ⟨.interrupted, "", false⟩, .data (Zstd.encode [104, 105])], false⟩
      ⟨true, true, true⟩) x ∧
    Reads (fun k => k + 1) (staged ⟨[.data ((Zstd.encode [104, 105]).take 7), .failure ⟨.interrupted, "", false⟩,
      .data ((Zstd.encode [104, 105]).drop 7)], false⟩ ⟨true, true, true⟩) x' ∧
    Delivers ⟨true, true, true⟩ [104, 105] x ∧ Delivers ⟨true, true, true⟩ [104, 105] x' := by
  have hplain : Stages.Plain ⟨true, true, true⟩ (Zstd.encode [104, 105]) [104, 105] := Zstd.decodes_encode _
  have hsource : Source.Supplies ⟨[.failure ⟨.interrupted, "", false⟩, .data (Zstd.encode [104, 105])], false⟩
      (Zstd.encode [104, 105]) := ⟨rfl, by simp [Source.Faultless], by simp [Source.bytes]⟩
  have hsource' : Source.Supplies ⟨[.data ((Zstd.encode [104, 105]).take 7), .failure ⟨.interrupted, "", false⟩,
      .data ((Zstd.encode [104, 105]).drop 7)], false⟩ (Zstd.encode [104, 105]) :=
    ⟨rfl, by simp [Source.Faultless], by simp [Source.bytes, List.take_append_drop]⟩
  obtain ⟨x, x', hx, hx', hend⟩ := chunking_independent ⟨true, true, true⟩ (fun _ => 1) (fun k => k + 1)
    (fun _ => Zstd.chunkingIndependent_encode [104, 105]) hsource hsource' (by simp) (by simp)
  rcases hend with ⟨plain, honly, hdelivers, hdelivers'⟩ | ⟨hnone, -⟩
  · obtain rfl := (honly _).mp hplain
    exact ⟨x, x', (hx x).mpr rfl, (hx' x').mpr rfl, hdelivers, hdelivers'⟩
  · exact absurd hplain (hnone _)

end Stream

end Depot
