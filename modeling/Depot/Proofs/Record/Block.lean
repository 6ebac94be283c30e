import Depot.Proofs.Record.Relay

/-!
# Records in a block of headers

The block of headers that a record makes is read back as the record, if the record can be expressed there: texts
are readable and have no blanks around them, times are in years of four digits and have no more than milliseconds,
and the characters of attributes are ASCII, where JSON escapes what a header could not hold. Any other record is read
back as a different one.

## Main results

* `Metadata.isReadable_text_iff` — which attributes have a readable text.
* `ObjectRecord.text?_toFields` — what is read of a record's block under each of its names.
* `ObjectRecord.ofHeaders_toFields_eq_iff` — which records are read back.
* `ObjectRecord.Expressible.faithful` — nothing of their blocks is dropped on the way.
-/

namespace Depot

open Headers (IsText IsReadable IsPlain read?)
open Fields (written)

/-! ## The text of attributes -/

/-- Whether all characters of a text are ASCII other than DEL. -/
def Text.IsAscii (s : String) : Prop := ∀ c ∈ s.toList, c.toNat < 0x7F

instance : DecidablePred Text.IsAscii := fun s =>
  List.decidableBAll (fun c : Char => c.toNat < 0x7F) s.toList

namespace Json

theorem isText_hexDigit {n : Nat} (h : n < 16) : IsText (Text.hexDigit n) := by
  interval_cases n <;> decide

/-- Inside quotes only DEL and what is not ASCII stay unreadable. -/
theorem isText_escape_iff (c : Char) : (∀ d ∈ escape c, IsText d) ↔ c.toNat < 0x7F := by
  have hslash : IsText '\\' := by decide
  have hshort {d : Char} (hd : IsText d) (hc : c.toNat < 0x7F) : (∀ x ∈ ['\\', d], IsText x) ↔ c.toNat < 0x7F :=
    iff_of_true (by simp [hslash, hd]) hc
  unfold escape
  split
  · next hc => exact hshort (by decide) (by rw [hc]; decide)
  split
  · next hc => exact hshort (by decide) (by rw [hc]; decide)
  split
  · next hc => exact hshort (by decide) (by rw [hc]; decide)
  split
  · next hc => exact hshort (by decide) (by rw [hc]; decide)
  split
  · next hc => exact hshort (by decide) (by rw [hc]; decide)
  split
  · next hc => exact hshort (by decide) (by omega)
  split
  · next hc => exact hshort (by decide) (by omega)
  split
  · next hc =>
    have hhigh := isText_hexDigit (show c.toNat / 16 < 16 by omega)
    have hlow := isText_hexDigit (show c.toNat % 16 < 16 by omega)
    have hcode : IsText 'u' ∧ IsText '0' := by decide
    exact iff_of_true (by simp [hslash, hcode, hhigh, hlow]) (by omega)
  · simp only [List.mem_singleton, forall_eq]
    unfold IsText
    omega

theorem isReadable_quote_iff (s : String) : IsReadable (quote s) ↔ Text.IsAscii s := by
  have hquote : IsText '"' := by decide
  unfold IsReadable Text.IsAscii
  rw [Reader.toList_quote]
  simp only [List.forall_mem_cons, List.forall_mem_append, List.mem_flatMap, forall_exists_index, and_imp, hquote,
    List.not_mem_nil, false_implies, implies_true, true_and, and_true]
  constructor
  · exact fun h c hc => (isText_escape_iff c).mp fun d hd => h d c hc hd
  · exact fun h d c hc hd => (isText_escape_iff c).mpr (h c hc) d hd

/-- The members of an object are readable exactly if all their names and values are. -/
theorem isText_members_iff (first : Bool) (ms : List (String × List Char)) :
    (∀ c ∈ Reader.members first ms, IsText c) ↔ ∀ m ∈ ms, IsReadable (quote m.1) ∧ ∀ c ∈ m.2, IsText c := by
  have hcolon : IsText ':' := by decide
  have hcomma : IsText ',' := by decide
  induction ms generalizing first with
  | nil => simp [Reader.members]
  | cons m ms ih =>
    have hseparator : ∀ c ∈ (if first then [] else [',']), IsText c := by cases first <;> simp [hcomma]
    unfold Reader.members
    simp only [List.forall_mem_append, List.forall_mem_cons, ih, eq_true hseparator, hcolon, true_and, and_assoc]
    rfl

end Json

namespace Metadata

/-- The text of attributes is readable exactly if all their characters are ASCII other than DEL. -/
theorem isReadable_compact_iff (m : Metadata) :
    IsReadable m.toJson.compact ↔ ∀ e ∈ m, Text.IsAscii e.1 ∧ Text.IsAscii e.2 := by
  have hopen : IsText '\x7b' := by decide
  have hclose : IsText '\x7d' := by decide
  unfold IsReadable toJson
  rw [Json.toList_compact_texts]
  simp only [List.forall_mem_cons, List.forall_mem_append, Json.isText_members_iff, List.forall_mem_map, hopen, hclose,
    List.not_mem_nil, false_implies, implies_true, true_and, and_true]
  exact forall₂_congr fun e _ => and_congr (Json.isReadable_quote_iff e.1) (Json.isReadable_quote_iff e.2)

/-- In whatever order they are listed. -/
theorem isReadable_text_iff (m : Metadata) (order : Order) :
    IsReadable (m.text order) ↔ ∀ e ∈ m, Text.IsAscii e.1 ∧ Text.IsAscii e.2 := by
  by_cases hm : m = []
  · subst hm
    exact iff_of_true (by simp [IsReadable]) (by simp)
  · rw [text_of_ne_nil hm, isReadable_compact_iff]
    exact forall_congr' fun e => by rw [(order.perm m).mem_iff]

end Metadata

/-! ## Times and sizes -/

theorem Instant.toMillis_eq_self_iff (t : Instant) : t.toMillis = t ↔ t.nanos % 1000000 = 0 := by
  have hnanos : t.toMillis = t ↔ t.nanos / 1000000 * 1000000 = t.nanos := by
    cases t
    simp [toMillis]
  rw [hnanos]
  omega

theorem Text.size?_lt (s : String) : (size? s).getD 0 < wordBound := by
  cases hsize : size? s with
  | none => decide
  | some n =>
    simp only [size?, unsigned?, Option.bind_eq_bind, Option.bind_eq_some_iff] at hsize
    obtain ⟨m, -, hm⟩ := hsize
    split at hm
    · cases hm
      assumption
    · cases hm

namespace ObjectRecord

variable {r : ObjectRecord} {name : String} {order : Metadata.Order}

/-- Whether a block of headers can express a record. -/
structure Expressible (r : ObjectRecord) : Prop where
  text : ∀ s ∈ [r.id, r.site, r.bucket, r.name], IsPlain s
  hash : ∀ s ∈ r.hash, IsPlain s ∧ s ≠ ""
  creation : ∀ t ∈ r.creation, t.InFourDigits ∧ t.nanos % 1000000 = 0
  expires : ∀ t ∈ r.expires, t.InFourDigits ∧ t.nanos % 1000000 = 0
  size : r.size < Text.wordBound
  sorted : r.metadata.Sorted
  metadata : ∀ e ∈ r.metadata, Text.IsAscii e.1 ∧ Text.IsAscii e.2

/-! ## What is read of the block -/

/-- The block as it goes into a map of headers. -/
theorem text?_toFields (r : ObjectRecord) (order : Metadata.Order) (hname : name ∈ fieldNames) :
    (r.toFields order).onWire.toHeaders.text? name = (written (r.value order name)).bind read? := by
  have hvalues : (r.toFields order).onWire.toHeaders.values name = _ :=
    Headers.values_toHeaders (fieldNames_plain name hname).2
  rw [Headers.text?_of_values hvalues, Fields.get?_onWire, r.sent?_toFields order hname]

/-- A text is read back exactly if it is plain; the empty one is not written. -/
theorem read_text_eq_iff (s : String) : ((written s).bind read?).getD "" = s ↔ IsPlain s := by
  by_cases hs : s = ""
  · subst hs
    decide
  unfold written
  split
  · next hwritten =>
    rw [Option.bind_some, ← Headers.read?_eq_self_iff hs]
    cases read? s with
    | none => simp [Ne.symm hs]
    | some t => simp
  · next hwritten =>
    refine iff_of_false (Ne.symm hs) fun hplain => hwritten ⟨hs, hplain.1.validValue⟩

theorem read_hash_eq_iff (hash : Option String) :
    (written (hash.getD "")).bind read? = hash ↔ ∀ s ∈ hash, IsPlain s ∧ s ≠ "" := by
  cases hash with
  | none => simp [written]
  | some s =>
    have htext := read_text_eq_iff s
    by_cases hs : s = ""
    · simp [hs, written]
    · rw [Option.getD_some]
      simp only [Option.mem_some, forall_eq']
      cases hread : (written s).bind read? with
      | none =>
        rw [hread] at htext
        simp only [Option.getD_none] at htext
        simp [← htext, hs, Ne.symm hs]
      | some t =>
        rw [hread] at htext
        simp only [Option.getD_some] at htext
        simp [← htext, hs]

/-- A time is read back exactly if its year has four digits and it has no more than milliseconds. -/
theorem read_time_eq_iff (time : Option Instant) :
    ((written (timeText time)).bind read?).bind Instant.parse? = time ↔
      ∀ t ∈ time, t.InFourDigits ∧ t.nanos % 1000000 = 0 := by
  rw [written_timeText]
  cases time with
  | none => simp
  | some t =>
    have hread : read? t.millisText = some t.millisText := t.isWord_millisText.isPlain.read? t.millisText_ne_empty
    simp only [Option.map_some, Option.bind_some, hread, Instant.parse?_millisText, Option.mem_some, forall_eq',
      ← Instant.toMillis_eq_self_iff]
    split
    · next hyear => simp [hyear]
    · next hyear => simp [hyear]

theorem read_size_eq_iff (n : Nat) :
    (((written (toString n)).bind read?).bind Text.size?).getD 0 = n ↔ n < Text.wordBound := by
  rw [Fields.read?_written_of_isWord (isWord_toString n) (by simp), Option.bind_some]
  constructor
  · intro h
    rw [← h]
    exact Text.size?_lt (toString n)
  · intro h
    rw [Text.size?_toString h, Option.getD_some]

/-- Attributes are read back exactly if they are in order and ASCII. -/
theorem read_metadata_eq_iff (m : Metadata) (order : Metadata.Order) :
    (((written (m.text order)).bind read?).map Metadata.ofText).getD [] = m ↔
      m.Sorted ∧ ∀ e ∈ m, Text.IsAscii e.1 ∧ Text.IsAscii e.2 := by
  rw [← m.isReadable_text_iff order]
  by_cases hm : m = []
  · subst hm
    exact iff_of_true rfl ⟨List.Pairwise.nil, (Metadata.isReadable_text_iff [] order).mpr (by simp)⟩
  have hne : m.text order ≠ "" := fun h => hm (Metadata.text_eq_empty_iff.mp h)
  by_cases hread : IsReadable (m.text order)
  · rw [Fields.read?_written_of_isPlain (Metadata.isPlain_text hread) hne, Option.map_some, Option.getD_some]
    refine ⟨fun h => ⟨?_, hread⟩, fun h => Metadata.ofText_text h.1 hm order⟩
    rw [← h]
    exact Metadata.sorted_ofText _
  · rw [Fields.read?_written_of_not_isReadable hread]
    exact iff_of_false (Ne.symm hm) fun h => hread h.2

/-! ## The record -/

/-- What is read of a record's block: each field by itself. -/
theorem ofHeaders_toFields_eq (r : ObjectRecord) (order : Metadata.Order) :
    ofHeaders (r.toFields order).onWire.toHeaders = {
    id := ((written r.id).bind read?).getD ""
    site := ((written r.site).bind read?).getD ""
    bucket := ((written r.bucket).bind read?).getD ""
    name := ((written r.name).bind read?).getD ""
    hash := (written (r.hash.getD "")).bind read?
    status := r.status
    creation := ((written (timeText r.creation)).bind read?).bind Instant.parse?
    expires := ((written (timeText r.expires)).bind read?).bind Instant.parse?
    size := (((written (toString r.size)).bind read?).bind Text.size?).getD 0
    metadata := (((written (r.metadata.text order)).bind read?).map Metadata.ofText).getD [] } := by
  have htext (name : String) (hname : name ∈ fieldNames) := r.text?_toFields order hname
  have hstatus : (((written r.status.name).bind read?).bind Status.parse?).getD .unknown = r.status := by
    rw [Fields.read?_written_of_isWord r.status.isWord_name r.status.name_ne_empty, Option.bind_some,
      Status.parse?_name, Option.getD_some]
  unfold ofHeaders
  simp only [htext Header.recordId (by decide), htext Header.site (by decide), htext Header.bucket (by decide),
    htext Header.name (by decide), htext Header.hash (by decide), htext Header.status (by decide),
    htext Header.creation (by decide), htext Header.expires (by decide), htext Header.size (by decide),
    htext Header.metadata (by decide)]
  rw [show r.value order Header.status = r.status.name from rfl, hstatus]
  rfl

/-- A record is read back of its block exactly if it can be expressed there. -/
theorem ofHeaders_toFields_eq_iff (r : ObjectRecord) (order : Metadata.Order) :
    ofHeaders (r.toFields order).onWire.toHeaders = r ↔ r.Expressible := by
  rw [ofHeaders_toFields_eq]
  constructor
  · intro h
    obtain ⟨id, site, bucket, name, hash, status, creation, expires, size, metadata⟩ := r
    simp only [ObjectRecord.mk.injEq, read_text_eq_iff, read_hash_eq_iff, read_time_eq_iff, read_size_eq_iff,
      read_metadata_eq_iff, true_and] at h
    obtain ⟨hid, hsite, hbucket, hname, hhash, hcreation, hexpires, hsize, hsorted, hmetadata⟩ := h
    refine ⟨?_, hhash, hcreation, hexpires, hsize, hsorted, hmetadata⟩
    simp [hid, hsite, hbucket, hname]
  · intro h
    have htext (s : String) (hs : s ∈ [r.id, r.site, r.bucket, r.name]) := (read_text_eq_iff s).mpr (h.text s hs)
    rw [htext r.id (by simp), htext r.site (by simp), htext r.bucket (by simp), htext r.name (by simp),
      (read_hash_eq_iff r.hash).mpr h.hash, (read_time_eq_iff r.creation).mpr h.creation,
      (read_time_eq_iff r.expires).mpr h.expires, (read_size_eq_iff r.size).mpr h.size,
      (read_metadata_eq_iff r.metadata order).mpr ⟨h.sorted, h.metadata⟩]

theorem Expressible.readable_entries (h : r.Expressible) (order : Metadata.Order) :
    ∀ e ∈ r.entries order, IsReadable e.2 := by
  have htime (time : Option Instant) : IsReadable (timeText time) := by
    cases time with
    | none => exact fun c hc => (by cases hc)
    | some t => exact t.isWord_millisText.isPlain.1
  unfold entries
  simp only [List.forall_mem_cons]
  refine ⟨(h.text r.id (by simp)).1, (h.text r.site (by simp)).1, (h.text r.bucket (by simp)).1,
    (h.text r.name (by simp)).1, ?_, r.status.isWord_name.isPlain.1, htime r.creation, htime r.expires,
    (isWord_toString r.size).isPlain.1, ?_, by simp⟩
  · cases hhash : r.hash with
    | none => exact fun c hc => (by cases hc)
    | some s => exact (h.hash s hhash).1.1
  · exact (r.metadata.isReadable_text_iff order).mpr h.metadata

/-- Every header of an expressible record's block can be put into a map of headers, and the record is read back
of them as it was, in whatever order the block lists its attributes. -/
theorem Expressible.faithful (h : r.Expressible) (order : Metadata.Order) :
    (∀ e ∈ r.toFields order, Fields.validName e.1 = true ∧ Fields.validValue e.2 = true) ∧
      ofHeaders (r.toFields order).onWire.toHeaders = r := by
  refine ⟨fun e he => ?_, (ofHeaders_toFields_eq_iff r order).mpr h⟩
  have hname : e.1 ∈ fieldNames := (r.map_fst_toFields_sublist order).subset (List.mem_map_of_mem he)
  have hentry : e ∈ r.entries order := List.mem_of_mem_filter he
  exact ⟨(fieldNames_plain e.1 hname).1, (h.readable_entries order e hentry).validValue⟩

/-- A record with little that is plain: tabs inside of texts, the first and the last year, a leap second, the largest
size, and attributes with quotes, backslashes and control characters, the last of which is listed first. -/
theorem Expressible.faithful_awkward :
    let leap : Instant := ⟨⟨0, 12, 31, by decide⟩, 23, 59, 60, 999000000, by decide⟩
    let last : Instant := ⟨⟨9999, 12, 31, by decide⟩, 23, 59, 59, 1000000, by decide⟩
    let r : ObjectRecord :=
      { id := "a\tb", site := "", bucket := "maps", name := "~ \"north\" ~", hash := some "0, 1", status := .unknown,
        creation := some leap, expires := some last, size := 18446744073709551615,
        metadata := [("", "\x00\x1f"), ("\n\t", " "), ("say \"tile\"", "C:\\maps")] }
    r.Expressible ∧
      (∀ e ∈ r.toFields .lastFirst, Fields.validName e.1 = true ∧ Fields.validValue e.2 = true) ∧
      ofHeaders (r.toFields .lastFirst).onWire.toHeaders = r := by
  intro leap last r
  have h : r.Expressible := ⟨by decide, by decide, by decide, by decide, by decide, by decide, by decide⟩
  exact ⟨h, h.faithful .lastFirst⟩

end ObjectRecord

end Depot
