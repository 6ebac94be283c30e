import Depot.Proofs.Refinement
import Depot.Proofs.Transfer.Download
import Depot.Proofs.Zstd.Unique
import Depot.Transfer.Scripted

/-!
# The coding of downloads

A download that is answered says of its body whether it is compressed. It compresses what the client takes
compressed and is not compressed already, and hands on everything else as it is; so whoever decodes the body by
what its headers say has the contents of the payload.

## Main results

* `Download.gives_of_encode` — what goes out of a source, whatever its stages.
* `Download.coded` — the answer to a download carries the coding that it names.
-/

namespace Depot

/-- Whether bytes are a whole compressed payload. -/
def Zstd.IsCoded (bytes : Bytes) : Prop := ∃ plain, Decodes bytes plain

theorem Zstd.isCoded_encode (contents : Bytes) : IsCoded (encode contents) := ⟨contents, decodes_encode contents⟩

/-- Whether nobody has read from an outlet: from a bare source, or from a stream that was told its stages at
most. -/
def Outlet.Unread : Outlet → Prop
  | .bare _ => True
  | .compressed _ => False
  | .transformed s => ∃ source stages, s = { pipeline := { source, stages } }

namespace PullSource

/-- Whether the payload of a source consists of some bytes, and the source says truthfully whether they are
compressed. -/
structure Holds (source : PullSource) (bytes : Bytes) : Prop where
  unread : source.outlet.Unread
  gives : ∀ n, n ≠ 0 → source.outlet.Gives n bytes
  truthful : source.compressed = true ↔ Zstd.IsCoded bytes

/-- The contents that the bytes of a source stand for. -/
def Plain (source : PullSource) (bytes plain : Bytes) : Prop :=
  if source.compressed then Zstd.Decodes bytes plain else plain = bytes

end PullSource

namespace Download

open Outlet

section Answers

variable {source : PullSource} {bytes : Bytes} {st : Stages} {s : Source}

/-- A stream that nobody has read from and that gives what is no compressed payload has no compressing stage. -/
theorem compress_of_not_isCoded {n : Nat} (hn : n ≠ 0) (h : ¬ Zstd.IsCoded bytes)
    (hgives : Gives n (.transformed { pipeline := { source := s, stages := st } }) bytes) : st.compress = false := by
  obtain ⟨plain, -, houtput⟩ := (Pipeline.flows_build s st).yields (gives_transformed_iff.mp hgives) hn
  cases hc : st.compress with
  | false => rfl
  | true =>
    rw [List.nil_append, Stages.output, hc, if_pos rfl] at houtput
    exact absurd (houtput ▸ Zstd.isCoded_encode plain) h

/-- What goes out of a source: its payload, compressed if that is asked for. -/
theorem gives_of_encode (h : source.Holds bytes) {coded : Bool} (hcoded : coded = true → source.compressed = false) :
    ∃ outlet, encode source coded = .ok outlet ∧
      ∀ n, n ≠ 0 → Gives n outlet (if coded then Zstd.encode bytes else bytes) := by
  obtain ⟨outlet, compressed⟩ := source
  obtain ⟨hunread, hgives, htruthful⟩ := h
  cases coded with
  | false =>
    have hsame : encode ⟨outlet, compressed⟩ false = .ok outlet := by cases outlet <;> rfl
    exact ⟨outlet, hsame, hgives⟩
  | true =>
    have hplain : ¬ Zstd.IsCoded bytes := fun hcompressed => by
      rw [hcoded rfl] at htruthful
      exact absurd (htruthful.mpr hcompressed) (by decide)
    have hchunk : Codec.deflateChunk ≠ 0 := by decide
    cases outlet with
    | bare s => exact ⟨.compressing s, rfl, fun n hn => gives_compressing (hgives _ hchunk) hn⟩
    | compressed p => cases hunread
    | transformed s =>
      obtain ⟨s, st, rfl⟩ := hunread
      refine ⟨.transformed { pipeline := { source := s, stages := { st with compress := true } } }, rfl,
        fun n hn => ?_⟩
      have hyields := gives_transformed_iff.mp (hgives _ hchunk)
      have hc : st.compress = false := compress_of_not_isCoded hchunk hplain (hgives _ hchunk)
      have hbare := (Pipeline.yields_readBuilt_iff hc).mp hyields
      exact gives_transformed_iff.mpr
        (Pipeline.yields_encode rfl rfl (Pipeline.yields_samePlain hbare ⟨rfl, rfl, rfl⟩) hn)

/-- Whether an answer carries the payload of a source in the coding that it names, `body` being what it
sends. -/
structure Coded (session : Session) (source : PullSource) (bytes : Bytes) (a : Answer) (body : Bytes) : Prop where
  status : a.status = 200
  sent : ∃ outlet, a.payload = .stream outlet ∧ ∀ n, n ≠ 0 → Gives n outlet body
  /-- The coding is named exactly if the body has it. -/
  named : a.fields.get? Header.contentEncoding = some zstdToken ↔ Zstd.IsCoded body
  /-- The payload is compressed once at most. -/
  once : body = bytes ∨ source.compressed = false ∧ body = Zstd.encode bytes
  /-- Decoding the body as the answer says gives the contents, and nothing else. -/
  conveys : ∀ plain, a.Conveys body plain ↔ source.Plain bytes plain
  accepted : session.compressOut = true → Zstd.IsCoded body
  untouched : source.compressed = false → session.compressOut = false →
    body = bytes ∧ a.fields.get? Header.contentEncoding = none

variable {ρ ι ω κ σ : Type} {h : Hooks ρ ι ω κ} (settings : Settings) {session : Session} {input : ι}
  {perform : (c : Call) → σ → Reply c.Answer × σ} {s₁ s₂ s₃ : ρ} {w₁ w₂ w₃ : σ} {fields : Fields}

/-- What a download sends of the payload of a source. -/
def bodyOf (session : Session) (source : PullSource) (bytes : Bytes) : Bytes :=
  if session.compressOut && !source.compressed then Zstd.encode bytes else bytes

theorem coded_carrying {outlet : Outlet} (hsource : source.Holds bytes)
    (hfields : fields.get? Header.contentEncoding = none)
    (hgives : ∀ n, n ≠ 0 → Gives n outlet (bodyOf session source bytes)) :
    Coded session source bytes (carrying session source fields outlet) (bodyOf session source bytes) := by
  have hname : (carrying session source fields outlet).fields.get? Header.contentEncoding =
      if session.compressOut || source.compressed then some zstdToken else none := get?_contentEncoding_framed hfields
  have hsent : ∃ o, (carrying session source fields outlet).payload = .stream o ∧
      ∀ n, n ≠ 0 → Gives n o (bodyOf session source bytes) := ⟨outlet, rfl, hgives⟩
  by_cases hencoded : (session.compressOut && !source.compressed) = true
  · -- the payload is compressed on its way out
    obtain ⟨hout, hplain⟩ : session.compressOut = true ∧ source.compressed = false := by simpa using hencoded
    have hbody : bodyOf session source bytes = Zstd.encode bytes := if_pos hencoded
    rw [hout, Bool.true_or, if_pos rfl] at hname
    rw [hbody] at hsent ⊢
    refine ⟨rfl, hsent, ⟨fun _ => Zstd.isCoded_encode bytes, fun _ => hname⟩, .inr ⟨hplain, rfl⟩, fun plain => ?_,
      fun _ => Zstd.isCoded_encode bytes, fun _ hother => ?_⟩
    · rw [Answer.Conveys, if_pos hname, Zstd.decodes_encode_iff, PullSource.Plain, hplain, if_neg (by decide)]
    · rw [hout] at hother
      cases hother
  · -- the payload goes out as it is, and is compressed if the client takes nothing else
    have hbody : bodyOf session source bytes = bytes := if_neg hencoded
    have hsame : (session.compressOut || source.compressed) = source.compressed := by
      cases hout : session.compressOut <;> cases hcompressed : source.compressed <;> simp_all
    rw [hsame] at hname
    rw [hbody] at hsent ⊢
    have hnamed : (carrying session source fields outlet).fields.get? Header.contentEncoding = some zstdToken ↔
        source.compressed = true := by
      rw [hname]
      cases source.compressed <;> decide
    refine ⟨rfl, hsent, hnamed.trans hsource.truthful, .inl rfl, fun plain => ?_, fun hout => ?_, fun hplain _ => ?_⟩
    · rw [Answer.Conveys, PullSource.Plain]
      simp only [hnamed, eq_comm]
    · have hcompressed : source.compressed = true := by simpa [hout] using hencoded
      exact hsource.truthful.mp hcompressed
    · rw [hname, hplain]
      exact ⟨rfl, rfl⟩

/-- The answer to a download carries the payload in the coding that it names. -/
theorem coded (hdirection : session.direction = .download) (hsource : source.Holds bytes)
    (hfields : fields.get? Header.contentEncoding = none)
    (hpayload : ((h.payload input).start s₁).run perform w₁ = ((.ok source, s₂), w₂))
    (hbeside : ((h.payloadFields input).start s₂).run perform w₂ = ((.ok fields, s₃), w₃))
    (hrelease : ∀ m, ((h.release.start s₃).run perform w₃).1.1 ≠ .error (.crashed m)) :
    ∃ a body, Coded session source bytes a body ∧
      ((pullList h settings session input s₁).run perform w₁).1.1 = .answered a ∧
      ∀ request s w, ((h.readable input request).start s).run perform w = ((.ok true, s₁), w₁) →
        ((pull h settings session input request s).run perform w).1.1 = .answered a := by
  have hcoded : (session.compressOut && !source.compressed) = true → source.compressed = false := by simp
  obtain ⟨outlet, hencode, hgives⟩ := gives_of_encode hsource hcoded
  exact ⟨_, _, coded_carrying hsource hfields hgives, run_pullList hdirection hpayload hbeside hencode hrelease,
    fun _ _ _ hreadable => run_pull hdirection hreadable hpayload hbeside hencode hrelease⟩

end Answers

/-! ## A counted stream -/

namespace Sample

/-- A resource that brings three bytes in a stream that is to hash them. -/
def script : Script := { payload := .ok { source := .ofBytes [1, 2, 3], transform := true, digest := true } }

def source : PullSource where
  outlet := .transformed { pipeline := { source := .ofBytes [1, 2, 3], stages := { digest := true } } }

theorem holds_source : source.Holds [1, 2, 3] where
  unread := ⟨_, _, rfl⟩
  gives _ hn := gives_output (Source.clean_ofBytes [1, 2, 3]) rfl hn
  truthful := ⟨fun h => (by cases h), fun ⟨_, h⟩ => absurd h (Zstd.not_decodes_of_length_lt (by decide))⟩

/-- A client that takes compressed payloads. -/
def session : Session := .setup ⟨[(Header.acceptEncoding, [0x7A, 0x73, 0x74, 0x64])]⟩ .download 0 none false "op"

/-- The log of a resource that was asked whether there is something to download. -/
def asked : Script.Log := [⟨.readable, some (.number 0)⟩]

/-- There is no store. -/
def nowhere (c : Call) (s : Unit) : Reply c.Answer × Unit := (.crashed "", s)

end Sample

/-- The stream is compressed for the client, once, and decodes to the three bytes. -/
theorem coded_counted : ∃ a body,
    ((pullList Sample.script.hooks {} Sample.session "x" Sample.asked).run Sample.nowhere ()).1.1 = .answered a ∧
    ((pull Sample.script.hooks {} Sample.session "x" {} []).run Sample.nowhere ()).1.1 = .answered a ∧
    a.fields.get? Header.contentEncoding = some zstdToken ∧ body = Zstd.encode [1, 2, 3] ∧
    ∀ plain, a.Conveys body plain ↔ plain = [1, 2, 3] := by
  have hdirection : Sample.session.direction = .download := rfl
  have hout : Sample.session.compressOut = true := by decide
  have hpayload : ((Sample.script.hooks.payload "x").start Sample.asked).run Sample.nowhere () =
      ((.ok Sample.source, _), ()) := rfl
  have hrelease (log : Script.Log) (m : String) :
      ((Sample.script.hooks.release.start log).run Sample.nowhere ()).1.1 ≠ .error (.crashed m) := by
    intro h
    cases h
  obtain ⟨a, body, hcoded, hlist, hpull⟩ := coded {} hdirection Sample.holds_source rfl hpayload rfl (hrelease _)
  have hbody : Zstd.IsCoded body := hcoded.accepted hout
  refine ⟨a, body, hlist, hpull {} [] () rfl, hcoded.named.mpr hbody, ?_, hcoded.conveys⟩
  rcases hcoded.once with rfl | ⟨-, h⟩
  · obtain ⟨_, h⟩ := hbody
    exact absurd h (Zstd.not_decodes_of_length_lt (by decide))
  · exact h

end Download

end Depot
