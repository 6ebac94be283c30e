import Depot.Proofs.Pump
import Depot.Proofs.Stream.Yield

/-!
# Sending answers

Whoever sends the bytes of a source that does not fail sends all of them, and whoever sends them compressed
sends the whole frame, whatever the size of the buffer. A stream that nobody has read from gives what its stages
give.

## Main results

* `Outlet.gives_bare_iff`, `Outlet.gives_transformed_iff` — what outlets give.
* `Outlet.send_bare`, `Outlet.send_compressing` — what is sent of a source.
-/

namespace Depot

theorem Source.length_bytes_le_weight (s : Source) : s.bytes.length ≤ s.weight := by
  obtain ⟨pieces, isOpen⟩ := s
  induction pieces with
  | nil => simp [bytes, weight]
  | cons p rest ih =>
    simp only [bytes_eq, weight] at ih ⊢
    cases p with
    | data b =>
      simp only [Piece.bytesOf_data, List.length_append, List.foldr_cons]
      omega
    | failure e =>
      simp only [Piece.bytesOf_failure, List.foldr_cons]
      omega

/-! ## Reading a stream -/

namespace Stream

variable {s : Stream} {p : Pipeline} {n : Nat} {out bytes : Bytes}

/-- A read of a stream whose barrier is pending answers as its stages do. -/
theorem read_of_readBuilt (hpending : s.barrier = .pending) (hopen : s.pipeline.finished = false)
    (h : s.pipeline.build.readBuilt n = (.ok out, p)) :
    ∃ s', s.read n = (.ok out, s') ∧ (out ≠ [] → s' = { s with started := true, pipeline := p }) := by
  have hmay : s.mayRead = .ok () := by rw [mayRead, hpending]; rfl
  rw [read, hmay]
  dsimp only
  rw [pull, work, if_neg (by simp [hopen]), h]
  dsimp only
  split
  · rename_i hend
    obtain rfl := List.isEmpty_iff.mp hend.1
    exact ⟨_, rfl, fun hout => absurd rfl hout⟩
  · exact ⟨_, rfl, fun _ => rfl⟩

/-- What a stream answers is what its stages answered. -/
theorem readBuilt_of_read {s' : Stream} (hpending : s.barrier = .pending) (hopen : s.pipeline.finished = false)
    (h : s.read n = (.ok out, s')) : ∃ p, s.pipeline.build.readBuilt n = (.ok out, p) := by
  generalize hbuilt : s.pipeline.build.readBuilt n = x
  obtain ⟨r, p⟩ := x
  cases r with
  | ok out' =>
    obtain ⟨_, hread, -⟩ := read_of_readBuilt hpending hopen hbuilt
    obtain rfl : out = out' := Except.ok.inj (congrArg Prod.fst (h.symm.trans hread))
    exact ⟨p, rfl⟩
  | error e =>
    have hmay : s.mayRead = .ok () := by rw [mayRead, hpending]; rfl
    rw [read, hmay] at h
    dsimp only at h
    rw [pull, work, if_neg (by simp [hopen]), hbuilt] at h
    dsimp only at h
    split at h <;> cases congrArg Prod.fst h

/-- A stream at whose stages only its reader works, and these stages. -/
structure Shows (s : Stream) (p : Pipeline) : Prop where
  pending : s.barrier = .pending
  opened : s.pipeline.finished = false
  built : p.built = true
  stages : s.pipeline.build = p

theorem Shows.next (h : Shows s p) {p' : Pipeline} (hread : p.readBuilt n = (.ok out, p')) :
    Shows { s with started := true, pipeline := p' } p' := by
  have hkept := Pipeline.kept_readBuilt hread
  have hbuilt : p'.built = true := hkept.built.trans h.built
  refine ⟨h.pending, hkept.finished.trans ?_, hbuilt, Pipeline.build_of_built hbuilt⟩
  rw [← h.stages, Pipeline.finished_build, h.opened]

/-- A stream brings what its stages bring. -/
theorem Shows.yields_iff (h : Shows s p) :
    Yields (fun s : Stream => s.read n) s bytes ↔ Yields (fun p : Pipeline => p.readBuilt n) p bytes := by
  constructor
  · refine fun hyields => hyields.simulate h fun s p out s' h hread => ?_
    obtain ⟨p', hbuilt⟩ := readBuilt_of_read h.pending h.opened hread
    obtain ⟨_, hsame, hnext⟩ := read_of_readBuilt h.pending h.opened hbuilt
    obtain rfl : s' = _ := congrArg Prod.snd (hread.symm.trans hsame)
    rw [h.stages] at hbuilt
    exact ⟨p', hbuilt, fun hout => hnext hout ▸ h.next hbuilt⟩
  · refine fun hyields => hyields.simulate (R := fun p s => Shows s p) h fun p s out p' h hbuilt => ?_
    obtain ⟨s', hread, hnext⟩ := read_of_readBuilt h.pending h.opened (h.stages.symm ▸ hbuilt)
    exact ⟨s', hread, fun hout => hnext hout ▸ h.next hbuilt⟩

theorem shows_build (source : Source) (st : Stages) :
    Shows { pipeline := { source := source, stages := st } } (Pipeline.build { source := source, stages := st }) :=
  ⟨rfl, rfl, rfl, rfl⟩

end Stream

namespace Outlet

variable {o o' : Outlet} {n : Nat} {rest bytes : Bytes} {s : Source} {st : Stages}

/-- Whether reads of `n` bytes get these bytes from an outlet, and then its end. -/
abbrev Gives (n : Nat) (o : Outlet) (bytes : Bytes) : Prop := Yields (fun o : Outlet => o.read n) o bytes

/-- Whether an outlet reads what something else reads. -/
theorem gives_iff {α : Type} {read : α → ReadResult × α} {make : α → Outlet}
    (h : ∀ x, (make x).read n = ((read x).1, make (read x).2)) (x : α) :
    Gives n (make x) bytes ↔ Yields read x bytes := by
  constructor
  · refine fun hgives => hgives.simulate (R := fun o x => o = make x) rfl ?_
    rintro _ x out y rfl hread
    obtain ⟨hout, rfl⟩ := Prod.mk.inj ((h x).symm.trans hread)
    exact ⟨_, Prod.ext hout rfl, fun _ => rfl⟩
  · refine fun hyields => hyields.simulate (R := fun x o => o = make x) rfl ?_
    rintro x _ out y rfl hread
    exact ⟨make y, by rw [h x, hread], fun _ => rfl⟩

theorem gives_bare_iff : Gives n (.bare s) bytes ↔ Yields (fun s : Source => s.read n) s bytes :=
  gives_iff (fun _ => rfl) s

theorem gives_compressed_iff {p : Pipeline} :
    Gives n (.compressed p) bytes ↔ Yields (fun p : Pipeline => p.readBuilt n) p bytes :=
  gives_iff (fun _ => rfl) p

/-- A stream that nobody has read from gives what its stages give. -/
theorem gives_transformed_iff : Gives n (.transformed { pipeline := { source := s, stages := st } }) bytes ↔
    Yields (fun p : Pipeline => p.readBuilt n) (Pipeline.build { source := s, stages := st }) bytes :=
  (gives_iff (fun _ => rfl) _).trans (Stream.shows_build s st).yields_iff

/-- Compressing what an outlet would give. -/
theorem gives_compressing (h : Gives Codec.deflateChunk (.bare s) bytes) (hn : n ≠ 0) :
    Gives n (compressing s) (Zstd.encode bytes) :=
  gives_compressed_iff.mpr (Pipeline.yields_encode rfl rfl (Pipeline.yields_source rfl (gives_bare_iff.mp h)) hn)

/-- What a stream over a clean source gives that does not decompress it. -/
theorem gives_output (hs : s.Clean) (hd : st.decompress = false) (hn : n ≠ 0) :
    Gives n (.transformed { pipeline := { source := s, stages := st } }) (st.output s.bytes) := by
  rw [gives_transformed_iff, Stages.output]
  cases hc : st.compress with
  | false => exact (Pipeline.yields_readBuilt_iff hc).mpr (Pipeline.yields_source hd (Source.yields_clean hs hn))
  | true =>
    exact Pipeline.yields_encode hc rfl (Pipeline.yields_source hd (Source.yields_clean hs (by decide))) hn

/-- Sending goes on to the end, in no more rounds than there are bytes, and one for the end. -/
theorem makes_of_gives (h : Gives n o bytes) (sent : Nat) : ∃ k data t, k ≤ bytes.length + 1 ∧
    Pump.Makes k { outlet := o, size := n, sent } (Pump.frames data none) t ∧ data.flatten = bytes := by
  induction h generalizing sent with
  | done h => exact ⟨1, [], _, by simp, .more rfl (Pump.round_end h) (.ended rfl), rfl⟩
  | @more o o' out rest h hout next ih =>
    obtain ⟨k, data, t, hk, hmakes, hdata⟩ := ih (sent + out.length)
    have hpos : 0 < out.length := List.length_pos_iff.mpr hout
    refine ⟨k + 1, out :: data, t, ?_, .more rfl (Pump.round_data h hout) hmakes, by rw [List.flatten_cons, hdata]⟩
    rw [List.length_append]
    omega

theorem send_of_gives (h : Gives n o bytes) (hweight : bytes.length < o.weight n) : o.send n = (bytes, none) := by
  obtain ⟨k, data, t, hk, hmakes, rfl⟩ := makes_of_gives h 0
  exact (pump_of_makes hmakes (by omega)).2

/-- There are more rounds than a source weighs. -/
theorem weight_bare (s : Source) (n : Nat) : s.weight + 1 ≤ (bare s).weight n := by
  have hfactor : (s.weight + 1) * 2 ≤ (s.weight + 1) * (131072 / (n + 1) + 2) :=
    Nat.mul_le_mul_left _ (Nat.le_add_left ..)
  show s.weight + 1 ≤ (s.weight + 1) * (131072 / (n + 1) + 2)
  omega

/-- A bare source is sent as it is. -/
theorem send_bare (hs : s.Clean) (hn : n ≠ 0) : (bare s).send n = (s.bytes, none) := by
  have hbytes := s.length_bytes_le_weight
  have hweight := weight_bare s n
  exact send_of_gives (gives_bare_iff.mpr (Source.yields_clean hs hn)) (by omega)

/-- A compressed source is sent as one frame. -/
theorem send_compressing (hs : s.Clean) (hn : n ≠ 0) :
    (compressing s).send n = (Zstd.encode s.bytes, none) := by
  have hgives := gives_compressing (gives_bare_iff.mpr (Source.yields_clean hs (by decide))) hn
  have hweight := s.length_bytes_le_weight
  have hlength := Zstd.Encoder.length_encode_le s.bytes
  refine send_of_gives hgives ?_
  let p := Pipeline.build { source := s, stages := { compress := true } }
  have hfactor : (p.weight + 1) * 2 ≤ (p.weight + 1) * (131072 / (n + 1) + 2) :=
    Nat.mul_le_mul_left _ (Nat.le_add_left ..)
  have hpipeline : 64 * s.weight + 64 ≤ p.weight := by
    show _ ≤ 64 * (s.weight + _ + _) + 64
    omega
  show (Zstd.encode s.bytes).length < (p.weight + 1) * (131072 / (n + 1) + 2)
  omega

end Outlet

end Depot
