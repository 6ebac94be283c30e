import Depot.Proofs.Stream.Chunking

/-!
# Whose error it is

A read of a stream fails with an error that its source has just raised, or else with one of the codec. Whoever waits
for the stream is told which of the two it was. The stages that decompress and compress stand between the source and
the reader, and take in more than they hand out; but none of them holds an error back, or takes one for its own. Errors
that ask for nothing but another read go by them and change nothing.

## Main definitions

* `Source.raisedSince` — the errors that a source has raised since an earlier state.
* `Source.Blames` — that a read fails with what its source raised, or in the codec.
* `Stream.Verdict` — what a read tells its reader, and whoever waits.

## Main results

* `Inflate.Trusts.read`, `Pipeline.Trusting.readBuilt` — no stage holds an error back or takes it for its own.
* `Stream.Listening.read` — the verdict of one read.
* `Stream.verdict_readAll` — the verdict of the read that follows on others.
-/

namespace Depot

/-! ## Sources -/

namespace Source

variable {s s₁ s' : Source} {n : Nat} {r : ReadResult} {e : ReadError} {out : Bytes}

/-- The errors of some pieces. -/
def Piece.errorsOf (pieces : List Piece) : List ReadError :=
  pieces.filterMap fun
    | .data _ => none
    | .failure e => some e

/-- The errors that a source has not raised yet. -/
def errors (s : Source) : List ReadError := Piece.errorsOf s.pieces

/-- The errors that a source has raised since it was in an earlier state. -/
def raisedSince (s' s : Source) : List ReadError := s.errors.take (s.errors.length - s'.errors.length)

theorem raisedSince_of_errors_eq (h : s'.errors = s.errors) : s'.raisedSince s = [] := by
  simp [raisedSince, h]

theorem raisedSince_of_errors_cons (h : s.errors = e :: s'.errors) : s'.raisedSince s = [e] := by
  simp [raisedSince, h]

/-- A source that will end, and whose errors are those of a reader of bytes: none is marked as one of a codec, and
none is the answer of a source to which nothing has arrived yet. -/
structure Genuine (s : Source) : Prop where
  closed : s.isOpen = false
  own : ∀ e ∈ s.errors, e.codec = false ∧ e.kind ≠ .pending

/-- Whom a read blames that led from one state of a source to another one: nobody, the source for the error that it
has just raised, or the codec. -/
inductive Blames (s s' : Source) : ReadResult → Prop
  | nobody {out : Bytes} (h : s'.errors = s.errors) : Blames s s' (.ok out)
  | source {e : ReadError} (h : s.errors = e :: s'.errors) : Blames s s' (.error e)
  | codec (f : Zstd.Fault) (h : s'.errors = s.errors) : Blames s s' (.error (Codec.raise false f))

theorem Blames.errors_eq (h : s.Blames s' (.ok out)) : s'.errors = s.errors := by
  cases h with
  | nobody h => exact h

/-- Steps before the last one that raised nothing make no difference. -/
theorem Blames.behind (h : s₁.Blames s' r) (hsame : s₁.errors = s.errors) : s.Blames s' r := by
  cases h with
  | nobody h => exact .nobody (h.trans hsame)
  | source h => exact .source (hsame.symm.trans h)
  | codec f h => exact .codec f (h.trans hsame)

/-- What is left of the errors of a source is still none of a codec. -/
theorem Blames.genuine (h : s.Blames s' r) (hs : s.Genuine) (hclosed : s'.isOpen = false) : s'.Genuine where
  closed := hclosed
  own := by
    cases h with
    | nobody h | codec _ h => rw [h]; exact hs.own
    | source h => exact fun e he => hs.own e (h ▸ List.mem_cons_of_mem _ he)

theorem errorsOf_readPieces (n : Nat) (pieces : List Piece) : match readPieces false n pieces with
    | (.ok _, rest) => Piece.errorsOf rest = Piece.errorsOf pieces
    | (.error e, rest) => Piece.errorsOf pieces = e :: Piece.errorsOf rest := by
  fun_induction readPieces false n pieces with
  | case1 => simp
  | case2 rest ih => exact ih
  | case3 => rfl
  | case4 => rfl
  | case5 => rfl
  | case6 => rfl

theorem blames_read (hs : s.isOpen = false) (h : s.read n = (r, s')) : s.Blames s' r := by
  have herrors := errorsOf_readPieces n s.pieces
  rw [read_eq, hs] at h
  obtain ⟨rfl, rfl⟩ := Prod.mk.inj h
  generalize readPieces false n s.pieces = y at herrors
  obtain ⟨r, rest⟩ := y
  cases r with
  | ok out => exact .nobody herrors
  | error e => exact .source herrors

end Source

/-- Whether a reader that got this answer may be read again with the same trust. -/
def ReadResult.Harmless (r : ReadResult) : Prop := ∀ e, r = .error e → e.kind.isTransient = true

theorem ReadResult.harmless_ok (out : Bytes) : Harmless (.ok out) := fun _ he => by cases he

/-! ## Decompressing -/

namespace Inflate

variable {i i' : Inflate} {s s' : Source} {n fuel : Nat} {r : ReadResult} {input : Bytes}

/-- A reader that takes its failures for its own, over a source that will end. -/
structure Trusts (i : Inflate) (s : Source) : Prop where
  closed : s.isOpen = false
  sourceFailed : i.sourceFailed = false

/-- What a read says of the source it was made of, and of itself. -/
structure Told (s : Source) (r : ReadResult) (i' : Inflate) (s' : Source) : Prop where
  blames : s.Blames s' r
  trusts : r.Harmless → i'.Trusts s'

theorem Trusts.fill {filled : ReadResult} (h : i.Trusts s) (hf : i.fill s = (filled, s')) :
    s.Blames s' filled ∧ i.Trusts s' := by
  unfold Inflate.fill at hf
  split at hf
  · exact ⟨Source.blames_read h.closed hf, (Source.isOpen_read hf).trans h.closed, h.sourceFailed⟩
  · obtain ⟨rfl, rfl⟩ := Prod.mk.inj hf
    exact ⟨.nobody rfl, h⟩

theorem Trusts.decode (h : i.Trusts s) (hd : i.decode input n = (r, i')) : s.Blames s r ∧ i'.Trusts s := by
  unfold Inflate.decode at hd
  split at hd
  · next f _ =>
    obtain ⟨rfl, rfl⟩ := Prod.mk.inj hd
    rw [h.sourceFailed]
    exact ⟨.codec f rfl, h⟩
  · obtain ⟨rfl, rfl⟩ := Prod.mk.inj hd
    exact ⟨.nobody rfl, h.closed, h.sourceFailed⟩

/-- A reader with what it decodes next. -/
theorem Trusts.held (h : i.Trusts s) (input : Bytes) : Trusts { i with held := input } s :=
  ⟨h.closed, h.sourceFailed⟩

/-- Reading on blames the source for nothing but what it raised at last. -/
theorem Looped.told (hl : Looped n fuel i s r i' s') (h : i.Trusts s) : Told s r i' s' := by
  induction hl with
  | stuck i s =>
    rw [Codec.stuck, h.sourceFailed]
    exact ⟨.codec .noProgress rfl, fun _ => h⟩
  | failed hfill =>
    obtain ⟨hblames, hnext⟩ := h.fill hfill
    refine ⟨hblames, fun hharmless => ⟨hnext.closed, ?_⟩⟩
    have htransient := hharmless _ rfl
    simp [h.sourceFailed, htransient]
  | ended hfill =>
    obtain ⟨hblames, hnext⟩ := h.fill hfill
    exact ⟨.nobody hblames.errors_eq, fun _ => ⟨hnext.closed, hnext.sourceFailed⟩⟩
  | short hfill =>
    obtain ⟨hblames, hnext⟩ := h.fill hfill
    rw [h.sourceFailed]
    exact ⟨.codec .incomplete hblames.errors_eq, fun _ => hnext⟩
  | decoded hfill _ hdecode =>
    obtain ⟨hblames, hnext⟩ := h.fill hfill
    obtain ⟨hdecoded, hlast⟩ := (hnext.held _).decode hdecode
    exact ⟨hdecoded.behind hblames.errors_eq, fun _ => hlast⟩
  | again hfill _ hdecode _ ih =>
    obtain ⟨hblames, hnext⟩ := h.fill hfill
    obtain ⟨hlast, hharmless⟩ := ih ((hnext.held _).decode hdecode).2
    exact ⟨hlast.behind hblames.errors_eq, hharmless⟩

/-- A decompressing reader holds no error of its source back, and takes none for its own. -/
theorem Trusts.read (h : i.Trusts s) (hr : i.read s n = (r, i', s')) : Told s r i' s' := by
  cases readOut hr with
  | ended => exact ⟨.nobody rfl, fun _ => h⟩
  | decoded _ hdecode =>
    obtain ⟨hblames, hnext⟩ := h.decode hdecode
    exact ⟨hblames, fun _ => hnext⟩
  | looped _ hdecode hlooped => exact hlooped.told (h.decode hdecode).2

end Inflate

/-! ## The stages -/

namespace Pipeline

variable {p p' : Pipeline} {n fuel : Nat} {r : ReadResult}

/-- Stages that take their failures for their own, over a source that will end. -/
def Trusting (p : Pipeline) : Prop := p.inflate.Trusts p.source

/-- What a read says of the source, and of the stages. -/
structure Told (p : Pipeline) (r : ReadResult) (p' : Pipeline) : Prop where
  blames : p.source.Blames p'.source r
  trusting : r.Harmless → p'.Trusting

@[simp] theorem source_build (p : Pipeline) : p.build.source = p.source := by
  unfold build
  split <;> rfl

@[simp] theorem inflate_build (p : Pipeline) : p.build.inflate = p.inflate := by
  unfold build
  split <;> rfl

theorem Trusting.readPlain (h : p.Trusting) (hr : p.readPlain n = (r, p')) : Told p r p' := by
  cases hd : p.stages.decompress with
  | false =>
    obtain ⟨rfl, rfl⟩ := Prod.mk.inj ((readPlain_bare hd).symm.trans hr)
    have hread : p.source.read n = ((p.source.read n).1, (p.source.read n).2) := (Prod.eta _).symm
    exact ⟨Source.blames_read h.closed hread,
      fun _ => ⟨(Source.isOpen_read hread).trans h.closed, h.sourceFailed⟩⟩
  | true =>
    obtain ⟨rfl, rfl⟩ := Prod.mk.inj ((readPlain_decompress hd).symm.trans hr)
    have htold := Inflate.Trusts.read (n := n) h (Prod.eta _).symm
    exact ⟨htold.blames, htold.trusts⟩

/-- Compressing adds nothing to an error that comes from below, not even to one of the other codec. -/
theorem Trusting.readDeflated (h : p.Trusting) (hr : readDeflated n fuel p = (r, p')) : Told p r p' := by
  induction fuel generalizing p with
  | zero =>
    obtain ⟨rfl, rfl⟩ := Prod.mk.inj hr
    exact ⟨.codec .noProgress rfl, fun _ => h⟩
  | succ fuel ih =>
    unfold Pipeline.readDeflated at hr
    split at hr
    · obtain ⟨rfl, rfl⟩ := Prod.mk.inj hr
      exact ⟨.nobody rfl, fun _ => h⟩
    · split at hr
      · next hplain =>
        obtain ⟨rfl, rfl⟩ := Prod.mk.inj hr
        exact h.readPlain hplain
      · next contents p₁ hplain =>
        obtain ⟨hblames, htrusting⟩ := h.readPlain hplain
        have hnext : Trusting { p₁ with deflate := p₁.deflate.take contents } :=
          htrusting (ReadResult.harmless_ok contents)
        obtain ⟨hlast, hharmless⟩ := ih hnext hr
        exact ⟨hlast.behind hblames.errors_eq, hharmless⟩

/-- No stage holds an error of the source back, or takes it for its own. -/
theorem Trusting.readBuilt (h : p.Trusting) (hr : p.readBuilt n = (r, p')) : Told p r p' := by
  unfold Pipeline.readBuilt at hr
  split at hr
  · exact h.readDeflated hr
  · exact h.readPlain hr

end Pipeline

/-! ## Streams -/

namespace Stream

variable {s t : Stream} {n : Nat} {r : ReadResult} {f : Failure} {message : String}

/-- Read one time after another, with these sizes. -/
def readAll (s : Stream) : List Nat → List ReadResult × Stream
  | [] => ([], s)
  | n :: sizes => ((s.read n).1 :: ((s.read n).2.readAll sizes).1, ((s.read n).2.readAll sizes).2)

/-- Every later read fails with this text. -/
def Refuses (s : Stream) (message : String) : Prop :=
  ∀ sizes, ∀ r ∈ (s.readAll sizes).1, ∃ e, r = .error e ∧ e.message = message

/-- What a read tells its reader, and whoever waits: bytes, or the end; an interruption of the source, which changes
nothing; an error of the source; or one of the codec. -/
inductive Verdict (s : Stream) : ReadResult → Stream → Prop
  | ok {out : Bytes} {t : Stream} (raised : t.pipeline.source.raisedSince s.pipeline.source = []) :
      Verdict s (.ok out) t
  | interrupted {e : ReadError} {t : Stream} (kind : e.kind = .interrupted)
      (raised : t.pipeline.source.raisedSince s.pipeline.source = [e]) (pending : t.barrier = .pending) :
      Verdict s (.error e) t
  | source {e : ReadError} {t : Stream} (kind : e.kind ≠ .interrupted) (codec : e.codec = false)
      (raised : t.pipeline.source.raisedSince s.pipeline.source = [e])
      (wait : ∀ ms, t.waitFor ms = (.error (.internal ("transfer stream interrupted: " ++ e.message)), t))
      (later : t.Refuses e.message) : Verdict s (.error e) t
  | codec {e : ReadError} {t : Stream} (kind : e.kind = .invalidData) (codec : e.codec = true)
      (raised : t.pipeline.source.raisedSince s.pipeline.source = [])
      (wait : ∀ ms, t.waitFor ms = (.error (.codec e.message), t)) (later : t.Refuses e.message) :
      Verdict s (.error e) t

/-! ### After a failure -/

theorem read_of_failed (hb : s.barrier = .failed f) (n : Nat) : s.read n = (.error f.readError, s) := by
  simp [Stream.read, mayRead, hb, Barrier.failure?]

/-- A stream of which a read failed answers every later read alike. -/
theorem refuses_of_failed {codec : Bool} (hb : s.barrier = .failed (.read codec message)) : s.Refuses message := by
  have hmessage : (Failure.readError (.read codec message)).message = message := by cases codec <;> rfl
  intro sizes
  induction sizes with
  | nil => simp [readAll]
  | cons n sizes ih =>
    rw [readAll, read_of_failed hb]
    exact List.forall_mem_cons.mpr ⟨⟨_, rfl, hmessage⟩, ih⟩

theorem Verdict.of_source {e : ReadError} (kind : e.kind ≠ .interrupted) (codec : e.codec = false)
    (raised : t.pipeline.source.raisedSince s.pipeline.source = [e])
    (hb : t.barrier = .failed (.read false e.message)) : s.Verdict (.error e) t :=
  .source kind codec raised (fun ms => by simp [waitFor, outcome?, hb, Failure.error]) (refuses_of_failed hb)

theorem Verdict.of_codec {e : ReadError} (kind : e.kind = .invalidData) (codec : e.codec = true)
    (raised : t.pipeline.source.raisedSince s.pipeline.source = [])
    (hb : t.barrier = .failed (.read true e.message)) : s.Verdict (.error e) t :=
  .codec kind codec raised (fun ms => by simp [waitFor, outcome?, hb, Failure.error]) (refuses_of_failed hb)

/-! ### One read -/

/-- A stream that has not come to its end, over a source that raises errors of its own only. -/
structure Listening (s : Stream) : Prop where
  pending : s.barrier = .pending
  opened : s.pipeline.finished = false
  trusting : s.pipeline.Trusting
  genuine : s.pipeline.source.Genuine

theorem listening_staged {source : Source} (h : source.Genuine) (st : Stages) : (staged source st).Listening :=
  ⟨rfl, rfl, ⟨h.closed, rfl⟩, h⟩

/-- A stream that was read to its end. -/
structure Ended (s : Stream) : Prop where
  completed : s.barrier.isComplete = true
  finished : s.pipeline.finished = true

theorem Ended.read (h : s.Ended) (n : Nat) : s.read n = (.ok [], s) := by
  obtain ⟨k, d, hb⟩ : ∃ k d, s.barrier = .completed k d := by
    have hcompleted := h.completed
    cases hb : s.barrier <;> simp_all [Barrier.isComplete]
  simp [Stream.read, mayRead, hb, Barrier.failure?, pull, work_of_finished h.finished]

/-- A stream that can be read on: it has not come to its end, or did so without a failure. -/
def Sound (s : Stream) : Prop := s.Listening ∨ s.Ended

/-- The verdict of one read, and that the next one may follow unless it failed. -/
structure Judged (s : Stream) (r : ReadResult) (t : Stream) : Prop where
  verdict : s.Verdict r t
  sound : (∀ e, r = .error e → e.kind = .interrupted) → t.Sound

theorem Listening.read (h : s.Listening) (hr : s.read n = (r, t)) : s.Judged r t := by
  have hpull : s.pull n = (r, t) := by rwa [Stream.read, mayRead, h.pending] at hr
  rw [pull, work, if_neg (by simp [h.opened])] at hpull
  generalize hbuilt : s.pipeline.build.readBuilt n = y at hpull
  obtain ⟨a, p⟩ := y
  have htrusting : s.pipeline.build.Trusting := by simpa [Pipeline.Trusting] using h.trusting
  obtain ⟨hblames, htrusts⟩ := htrusting.readBuilt hbuilt
  rw [Pipeline.source_build] at hblames
  have hopened : p.finished = false := by
    rw [(Pipeline.kept_readBuilt hbuilt).finished, Pipeline.finished_build, h.opened]
  -- the stages may be read on, unless the error was the last one
  have honward (hharmless : a.Harmless) : Listening { s with started := true, pipeline := p } :=
    ⟨h.pending, hopened, htrusts hharmless, hblames.genuine h.genuine (htrusts hharmless).closed⟩
  cases hblames with
  | @nobody out hraised =>
    by_cases hend : out.isEmpty = true ∧ n ≠ 0
    · simp only [if_pos hend, Option.elim, fire, h.pending] at hpull
      obtain ⟨rfl, rfl⟩ := Prod.mk.inj hpull
      exact ⟨.ok (Source.raisedSince_of_errors_eq hraised), fun _ => .inr ⟨rfl, rfl⟩⟩
    · simp only [if_neg hend, Option.elim] at hpull
      obtain ⟨rfl, rfl⟩ := Prod.mk.inj hpull
      exact ⟨.ok (Source.raisedSince_of_errors_eq hraised), fun _ => .inl (honward (ReadResult.harmless_ok _))⟩
  | @source e hraised =>
    obtain ⟨hown, hmade⟩ := h.genuine.own e (hraised ▸ List.mem_cons_self)
    by_cases he : e.kind = .interrupted
    · have htransient : e.kind.isTransient = true := by rw [he]; rfl
      simp only [htransient, if_true, Option.elim] at hpull
      obtain ⟨rfl, rfl⟩ := Prod.mk.inj hpull
      refine ⟨.interrupted he (Source.raisedSince_of_errors_cons hraised) h.pending, fun _ => .inl (honward ?_)⟩
      rintro _ ⟨⟩
      exact htransient
    · have htransient : e.kind.isTransient = false := by simp [ErrorKind.isTransient, he, hmade]
      simp only [htransient, Bool.false_eq_true, if_false, Option.elim, fire, h.pending, hown] at hpull
      obtain ⟨rfl, rfl⟩ := Prod.mk.inj hpull
      exact ⟨.of_source he hown (Source.raisedSince_of_errors_cons hraised) rfl,
        fun hgoes => absurd (hgoes e rfl) he⟩
  | codec fault hraised =>
    have htransient : (Codec.raise false fault).kind.isTransient = false := rfl
    have hkind : (Codec.raise false fault).kind ≠ .interrupted := by simp [Codec.raise]
    simp only [htransient, Bool.false_eq_true, if_false, Option.elim, fire, h.pending] at hpull
    obtain ⟨rfl, rfl⟩ := Prod.mk.inj hpull
    exact ⟨.of_codec rfl rfl (Source.raisedSince_of_errors_eq hraised) rfl,
      fun hgoes => absurd (hgoes _ rfl) hkind⟩

theorem Sound.read (h : s.Sound) (n : Nat) : s.Judged (s.read n).1 (s.read n).2 := by
  rcases h with h | h
  · exact h.read rfl
  · rw [h.read n]
    exact ⟨.ok (Source.raisedSince_of_errors_eq rfl), fun _ => .inr h⟩

/-! ### One read after another -/

/-- Nothing but interruptions came of these reads, apart from bytes. -/
def GoneOn (answers : List ReadResult) : Prop := ∀ r ∈ answers, ∀ e, r = .error e → e.kind = .interrupted

theorem Sound.readAll {sizes : List Nat} (h : s.Sound) (hgone : GoneOn (s.readAll sizes).1) :
    (s.readAll sizes).2.Sound := by
  induction sizes generalizing s with
  | nil => exact h
  | cons n sizes ih =>
    obtain ⟨hfirst, hrest⟩ := List.forall_mem_cons.mp hgone
    exact ih ((h.read n).sound hfirst) hrest

/-- Of a stream over any source whose errors are its own, and with any stages: the first read that fails, other than
by an interruption, fails with what the source has just raised, and else in the codec. Whoever waits is told which of
the two it was, and every later read fails with the same text. -/
theorem verdict_readAll {source : Source} (hsource : source.Genuine) (st : Stages) {sizes : List Nat}
    (hgone : GoneOn ((staged source st).readAll sizes).1) (n : Nat) :
    Verdict ((staged source st).readAll sizes).2 (((staged source st).readAll sizes).2.read n).1
      (((staged source st).readAll sizes).2.read n).2 :=
  ((Sound.readAll (.inl (listening_staged hsource st)) hgone).read n).verdict

/-- A peer that hangs up in the middle of a compressed payload, of which the first read was interrupted. -/
theorem verdict_readAll_reset :
    let source : Source := ⟨[.failure ⟨.interrupted, "", false⟩, .data [40, 181],
      .failure ⟨.connectionReset, "peer hung up", false⟩], false⟩
    let s := ((staged source ⟨true, true, true⟩).readAll [4]).2
    (s.read 4).1 = .error ⟨.connectionReset, "peer hung up", false⟩ ∧ s.Verdict (s.read 4).1 (s.read 4).2 := by
  intro source s
  have hsource : source.Genuine := ⟨rfl, by decide⟩
  have hgone : GoneOn ((staged source ⟨true, true, true⟩).readAll [4]).1 := by
    have hanswers : ((staged source ⟨true, true, true⟩).readAll [4]).1 = [.error ⟨.interrupted, "", false⟩] := by
      decide +kernel
    rw [hanswers]
    simp [GoneOn]
  exact ⟨by decide +kernel, verdict_readAll hsource ⟨true, true, true⟩ hgone 4⟩

end Stream

end Depot
