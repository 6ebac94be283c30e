import Depot.Proofs.Catalog.Reached
import Depot.Proofs.Filter
import Depot.Proofs.Header.Reading
import Depot.Proofs.Listing
import Depot.Proofs.Outlet
import Depot.Proofs.Refinement
import Depot.Proofs.Transfer.Download
import Depot.Proofs.Utf8
import Depot.Resource.Listing

/-!
# Listing a bucket

The listing of a ready bucket is a line for each of its records that meets the criteria of the request, in the
ascending order of names. The criteria are those that can be read of the headers; what cannot be read does not
count.

## Main results

* `Filter.accepts_ofHeaders_iff` — the filter of a request accepts what its headers want.
* `ListingResource.answers_exactly` — the answer to a listing, in every state of either catalog.
-/

namespace Depot

/-! ## The criteria of a request -/

namespace Headers

/-- Whether a request names a state among those that it lists. -/
def NamesStatus (h : Headers) (t : Status) : Prop :=
  ∃ s, h.text? Header.filterStatuses = some s ∧ ∃ piece ∈ Text.split ',' s, Status.parse? piece = some t

/-- Whether a record meets the criteria that can be read of the headers of a request. -/
structure Wants (h : Headers) (r : ObjectRecord) : Prop where
  name : ∀ start, h.text? Header.filterName = some start → ∃ rest, r.name = start ++ rest
  /-- Any state will do if none is named. -/
  status : (∀ t, ¬ h.NamesStatus t) ∨ h.NamesStatus r.status
  createdBefore : ∀ s t, h.text? Header.filterCreationBefore = some s → Instant.parse? s = some t →
    ∃ c, r.creation = some c ∧ c.before t = true
  createdAfter : ∀ s t, h.text? Header.filterCreationAfter = some s → Instant.parse? s = some t →
    ∃ c, r.creation = some c ∧ t.before c = true
  sizeBelow : ∀ s n, h.text? Header.filterSizeBelow = some s → Text.size? s = some n → r.size < n
  sizeAbove : ∀ s n, h.text? Header.filterSizeAbove = some s → Text.size? s = some n → n < r.size

end Headers

namespace Filter

variable {h : Headers} {r : ObjectRecord}

theorem mem_statuses_ofHeaders {t : Status} : t ∈ (ofHeaders h).statuses ↔ h.NamesStatus t := by
  simp only [ofHeaders, Headers.NamesStatus]
  cases h.text? Header.filterStatuses with
  | none => simp
  | some s => simp [List.mem_filterMap]

/-- The filter of a request accepts what its headers want. -/
theorem accepts_ofHeaders_iff : (ofHeaders h).accepts r = true ↔ h.Wants r := by
  have hstatus : ((ofHeaders h).statuses = [] ∨ r.status ∈ (ofHeaders h).statuses) ↔
      ((∀ t, ¬ h.NamesStatus t) ∨ h.NamesStatus r.status) := by
    simp only [List.eq_nil_iff_forall_not_mem, mem_statuses_ofHeaders]
  rw [accepts_iff, hstatus]
  simp only [ofHeaders, Option.bind_eq_some_iff, forall_exists_index, and_imp]
  constructor
  · rintro ⟨hname, hstatus, hbefore, hafter, hbelow, habove⟩
    exact ⟨hname, hstatus, fun s t => hbefore t s, fun s t => hafter t s, fun s n => hbelow n s,
      fun s n => habove n s⟩
  · rintro ⟨hname, hstatus, hbefore, hafter, hbelow, habove⟩
    exact ⟨hname, hstatus, fun t s => hbefore s t, fun t s => hafter s t, fun n s => hbelow s n,
      fun n s => habove s n⟩

/-- No header has a NUL. -/
theorem nul_not_mem_nameStart : ∀ start ∈ (ofHeaders h).nameStart, Char.ofNat 0 ∉ start.toList := by
  intro start hstart hnul
  exact absurd (Headers.isReadable_text? (show h.text? Header.filterName = some start from hstart) _ hnul) (by decide)

end Filter

/-! ## The answer -/

namespace Listing

/-- Whether a listing is of the records of a bucket that meet some criteria, each of them once, in the ascending
order of the bytes of their names. -/
structure Lists (c : Catalog) (bucket : String) (P : ObjectRecord → Prop) (records : List ObjectRecord) : Prop where
  mem_iff : ∀ r, r ∈ records ↔ c.getObject r.key = some r ∧ r.bucket = bucket ∧ P r
  ascending : records.Pairwise fun a b => Bytes.ofText a.name < Bytes.ofText b.name

end Listing

namespace Catalog

variable {c : Catalog}

/-- A catalog lists what the headers of a request want. -/
theorem Reached.lists (hc : c.Reached) (h : Headers) (bucket : String) :
    Listing.Lists c bucket h.Wants (c.listObjects bucket (.ofHeaders h)) where
  mem_iff r := by
    rw [hc.arranged.mem_listObjects Filter.nul_not_mem_nameStart, Filter.accepts_ofHeaders_iff]
  ascending := (hc.arranged.pairwise_listObjects bucket _).imp Bytes.ofText_lt_ofText

end Catalog

namespace ListingResource

variable {c : Catalog} {storage : Storage} {session : Session} {settings : Settings} {q : Query}

/-- The answer with a listing. -/
def listed (session : Session) (bucket : String) (records : List ObjectRecord) : Answer :=
  Download.carrying session ⟨.bare (Listing.source records), false⟩
    [(Header.contentType, ndjsonType), (Header.bucket, bucket)]
    (if session.compressOut then .compressing (Listing.source records) else .bare (Listing.source records))

/-- The lines of a listing are sent in the coding that the answer names. -/
theorem listed_conveys (session : Session) (bucket : String) (records : List ObjectRecord) {n : Nat} (hn : n ≠ 0) :
    ∃ sent, (listed session bucket records).send n = (sent, none) ∧
      (listed session bucket records).Conveys sent (records.flatMap Listing.line) := by
  have hcoding : (listed session bucket records).fields.get? Header.contentEncoding =
      if session.compressOut || false then some zstdToken else none :=
    Download.get?_contentEncoding_framed rfl
  rw [Bool.or_false] at hcoding
  have hclean := Listing.clean_source records
  simp only [Answer.Conveys, hcoding, ← Listing.bytes_source records]
  cases hout : session.compressOut with
  | true =>
    refine ⟨Zstd.encode (Listing.source records).bytes, ?_, Zstd.decodes_encode _⟩
    rw [listed, hout]
    exact Outlet.send_compressing hclean hn
  | false =>
    refine ⟨(Listing.source records).bytes, ?_, rfl⟩
    rw [listed, hout]
    exact Outlet.send_bare hclean hn

theorem run_hasBucket (c : Catalog) (storage : Storage) (name : String) :
    ((ObjectResource.hasBucket name : Action Unit Bool).start ()).run Store.perform ⟨c, storage⟩ =
      ((.ok (c.hasBucket name), ()), ⟨c, storage⟩) := rfl

/-- The listing of a bucket that is ready. -/
theorem run_pullList_ready (hdirection : session.direction = .download) (hready : c.hasBucket q.bucket = true) :
    ((Download.pullList hooks settings session q ()).run Store.perform ⟨c, storage⟩).1.1 =
      .answered (listed session q.bucket (c.listObjects q.bucket q.filter)) := by
  have hpayload : ((hooks.payload q).start ()).run Store.perform ⟨c, storage⟩ =
      ((.ok ⟨.bare (Listing.source (c.listObjects q.bucket q.filter)), false⟩, ()), ⟨c, storage⟩) := by
    rw [hooks, Download.run_start_bind (run_hasBucket c storage q.bucket), hready]
    rfl
  refine Download.run_pullList hdirection hpayload rfl ?_ fun m => ?_
  · cases session.compressOut <;> rfl
  · intro hcrashed
    cases hcrashed

/-- There is no listing of a bucket that is not ready. -/
theorem run_pullList_missing (hdirection : session.direction = .download) (hmissing : c.hasBucket q.bucket = false) :
    ((Download.pullList hooks settings session q ()).run Store.perform ⟨c, storage⟩).1.1 =
      .failed (ObjectResource.bucketMissing q.bucket) (session.errorAnswer settings.moduleName
        (ObjectResource.bucketMissing q.bucket) [(Header.bucket, q.bucket)]) := by
  have hpayload : ((hooks.payload q).start ()).run Store.perform ⟨c, storage⟩ =
      ((.error (.refused (ObjectResource.bucketMissing q.bucket)), ()), ⟨c, storage⟩) := by
    rw [hooks, Download.run_start_bind (run_hasBucket c storage q.bucket), hmissing]
    rfl
  have hattempt : ((Download.streamOut hooks session q).start ()).run Store.perform ⟨c, storage⟩ =
      ((.error (.refused (ObjectResource.bucketMissing q.bucket)), ()), ⟨c, storage⟩) := by
    rw [Download.streamOut, if_neg (by simp [hdirection])]
    beta_reduce
    rw [Action.start_bind, Program.run_bind, hpayload]
    rfl
  rw [Download.pullList, Program.run_bind, hattempt]
  rfl

/-- A listing in any state of either catalog. -/
theorem answers_exactly (hc : c.Reached) (storage : Storage) (settings : Settings) (h : Headers)
    (bucket operationId : String) :
    let ending := ((Download.pullList hooks settings (.setup h .download 0 none false operationId)
      ⟨bucket, .ofHeaders h⟩ ()).run Store.perform ⟨c, storage⟩).1.1
    (c.hasBucket bucket = true → ∃ a records, ending = .answered a ∧ a.status = 200 ∧
      (∀ n, n ≠ 0 → ∃ sent, a.send n = (sent, none) ∧ a.Conveys sent (records.flatMap Listing.line)) ∧
      Listing.Lists c bucket h.Wants records ∧ Listing.read? (records.flatMap Listing.line) = some records) ∧
    (c.hasBucket bucket = false → ∃ e a, ending = .failed e a ∧ a.status = 404) := by
  intro ending
  constructor
  · intro hready
    have hlists := hc.lists h bucket
    have hread := Listing.read?_lines fun r hr => hc.wellTyped ((hlists.mem_iff r).mp hr).1
    exact ⟨_, _, run_pullList_ready rfl hready, rfl, fun n hn => listed_conveys _ _ _ hn, hlists, hread⟩
  · intro hmissing
    exact ⟨_, _, run_pullList_missing rfl hmissing, rfl⟩

/-! ## A bucket with two objects -/

namespace Sample

def bucket : BucketRecord := { name := "maps" }

def noon : Instant := ⟨⟨2024, 2, 29, by decide⟩, 12, 0, 0, 500000, by decide⟩

/-- An object of nine bytes. -/
def small : ObjectRecord :=
  { bucket := "maps", name := "tile/ä", status := .ready, creation := some noon, size := 9,
    metadata := [("kind", "say \"tile\"\n")] }

/-- An object of ten bytes. -/
def large : ObjectRecord := { small with name := "tile/b", size := 10 }

def catalog : Catalog :=
  (((((Catalog.memory {}).perform (.createBucket bucket)).2.perform (.insertObject small)).2.perform
    (.insertObject large)).2)

theorem wellTyped_small : small.WellTyped := ⟨by decide, by decide, by decide, by decide⟩

theorem wellTyped_large : large.WellTyped := ⟨by decide, by decide, by decide, by decide⟩

theorem reached_catalog : catalog.Reached := by
  have hopened : Catalog.open' "memory" = .ok (.memory {}) := rfl
  exact (((Catalog.Reached.opened hopened).performed (.createBucket bucket) trivial).performed
    (.insertObject small) wellTyped_small).performed (.insertObject large) wellTyped_large

/-- A request for what begins with `tile/` and has less than ten bytes; what it says of creation is no instant. -/
def headers : Headers :=
  ⟨[(Header.filterName, [0x74, 0x69, 0x6C, 0x65, 0x2F]), (Header.filterSizeBelow, [0x20, 0x31, 0x30]),
    (Header.filterCreationAfter, [0x6E, 0x6F, 0x6F, 0x6E])]⟩

theorem wants_small : headers.Wants small := Filter.accepts_ofHeaders_iff.mp (by decide)

theorem not_wants_large : ¬ headers.Wants large := fun h => absurd (Filter.accepts_ofHeaders_iff.mpr h) (by decide)

end Sample

/-- The listing has the object of nine bytes in it and not the one of ten. -/
theorem answers_exactly_tiles : ∃ a records,
    ((Download.pullList hooks {} (.setup Sample.headers .download 0 none false "op")
      ⟨"maps", .ofHeaders Sample.headers⟩ ()).run Store.perform ⟨Sample.catalog, .memory {}⟩).1.1 = .answered a ∧
    (∀ n, n ≠ 0 → ∃ sent, a.send n = (sent, none) ∧ a.Conveys sent (records.flatMap Listing.line)) ∧
    Sample.small ∈ records ∧ Sample.large ∉ records ∧
    Listing.read? (records.flatMap Listing.line) = some records := by
  have hanswer := answers_exactly Sample.reached_catalog (.memory {}) {} Sample.headers "maps" "op"
  obtain ⟨a, records, hending, -, hsend, hlists, hread⟩ := hanswer.1 (by decide)
  refine ⟨a, records, hending, hsend, ?_, fun hlarge => ?_, hread⟩
  · exact (hlists.mem_iff Sample.small).mpr ⟨by decide, rfl, Sample.wants_small⟩
  · exact Sample.not_wants_large ((hlists.mem_iff Sample.large).mp hlarge).2.2

end ListingResource

end Depot
