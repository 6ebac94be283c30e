import Depot.Proofs.Header.Reading
import Depot.Proofs.Instant
import Depot.Proofs.Json

/-!
# Records that are read and written again

A record that is read of a header block puts into a block of its own what was readable of the other one. Values
that are not plain ASCII are lost, blanks around a value too, and so are times in years that do not have four
digits. Attributes are listed anew, in an order that need not be that of the block that was read.

## Main results

* `ObjectRecord.written_value_ofHeaders` — what the block of the record says under each of its names.
* `ObjectRecord.carried_eq_iff` — whether the block is the one that was read.
-/

namespace Depot

open Headers (IsPlain IsWord read?)

theorem Status.isWord_name (t : Status) : IsWord t.name := by cases t <;> decide

theorem Status.name_ne_empty (t : Status) : t.name ≠ "" := by cases t <;> decide

theorem Status.parse?_name (t : Status) : parse? t.name = some t := by cases t <;> decide

namespace Metadata

/-- The order in which the last name is the first. -/
def Order.lastFirst : Order := ⟨List.reverse, List.reverse_perm⟩

variable {m : Metadata} {order other : Order}

/-- The text of attributes begins and ends with a brace. -/
theorem isPlain_compact (h : Headers.IsReadable m.toJson.compact) : IsPlain m.toJson.compact := by
  have htext := Json.toList_compact_texts m
  refine Headers.isPlain_of_ends h ?_ ?_
  · intro c hc
    rw [toJson, htext, List.head?_cons] at hc
    obtain rfl := Option.mem_some_iff.mp hc
    decide
  · intro c hc
    rw [toJson, htext, ← List.cons_append, List.getLast?_append_of_ne_nil _ (by simp)] at hc
    obtain rfl := Option.mem_some_iff.mp hc
    decide

theorem compact_ne_empty (m : Metadata) : m.toJson.compact ≠ "" := by
  intro hempty
  have htext := Json.toList_compact_texts m
  rw [toJson] at hempty
  simp [hempty] at htext

@[simp] theorem text_nil (order : Order) : text [] order = "" := rfl

theorem text_of_ne_nil (h : m ≠ []) (order : Order) : m.text order = (toJson (order.list m)).compact := by
  rw [text, if_neg (by simpa using h)]

theorem text_eq_empty_iff : m.text order = "" ↔ m = [] := by
  refine ⟨fun h => Decidable.byContradiction fun hne => ?_, fun h => h ▸ rfl⟩
  rw [text_of_ne_nil hne] at h
  exact compact_ne_empty _ h

/-- The text of attributes is plain if it is readable. -/
theorem isPlain_text (h : Headers.IsReadable (m.text order)) : IsPlain (m.text order) := by
  by_cases hm : m = []
  · subst hm
    exact show IsPlain "" by decide
  · rw [text_of_ne_nil hm] at h ⊢
    exact isPlain_compact h

/-- Attributes are read back, in whatever order they were listed. -/
theorem ofText_text (h : m.Sorted) (hne : m ≠ []) (order : Order) : ofText (m.text order) = m := by
  rw [text_of_ne_nil hne]
  exact ofText_compact h order

/-- Two texts of attributes are the same exactly if they list them alike. -/
theorem text_eq_text_iff (h : m.Sorted) : m.text order = m.text other ↔ order.list m = other.list m := by
  by_cases hm : m = []
  · subst hm
    exact iff_of_true rfl ((order.perm []).eq_nil.trans (other.perm []).eq_nil.symm)
  · rw [text_of_ne_nil hm, text_of_ne_nil hm]
    exact compact_eq_compact_iff h

end Metadata

/-- What goes over the wire of a text: nothing if it is empty, or cannot be written there. -/
def Fields.written (s : String) : Option String := if s ≠ "" ∧ validValue s = true then some s else none

open Fields (written)

theorem Fields.filter_filter_validValue (s : String) :
    ((some s).filter (· ≠ "")).filter validValue = written s := by
  by_cases hs : s = "" <;> cases hvalid : validValue s <;> simp [written, Option.filter_some, hs, hvalid]

theorem Fields.written_of_isWord {s : String} (h : IsWord s) (hs : s ≠ "") : written s = some s :=
  if_pos ⟨hs, h.isPlain.1.validValue⟩

theorem Fields.eq_of_written {s t : String} (h : written s = some t) : s = t := by
  unfold written at h
  split at h
  · exact Option.some.inj h
  · cases h

theorem Fields.read?_written_of_isPlain {s : String} (h : IsPlain s) (hs : s ≠ "") :
    (written s).bind read? = some s := by
  have hwritten : written s = some s := if_pos ⟨hs, h.1.validValue⟩
  rw [hwritten, Option.bind_some, h.read? hs]

theorem Fields.read?_written_of_isWord {s : String} (h : IsWord s) (hs : s ≠ "") :
    (written s).bind read? = some s := read?_written_of_isPlain h.isPlain hs

theorem Fields.read?_written_of_not_isReadable {s : String} (h : ¬ Headers.IsReadable s) :
    (written s).bind read? = none := by
  unfold written read?
  split <;> simp [h]

/-- What was read of a header goes over the wire as it is. -/
theorem Fields.written_read? {o : Option String} : written ((o.bind read?).getD "") = o.bind read? := by
  cases hread : o.bind read? with
  | none => rfl
  | some s =>
    obtain ⟨t, -, ht⟩ := Option.bind_eq_some_iff.mp hread
    obtain ⟨hvalid, hne⟩ := Headers.valid_of_read? ht
    exact if_pos ⟨hne, hvalid⟩

namespace ObjectRecord

/-- What comes back of the value of a record's header: a time only if it is read as such, and attributes in the
order in which they are listed here. -/
def carried (order : Metadata.Order) (name value : String) : Option String :=
  if name = Header.creation ∨ name = Header.expires then
    (read? value).filter fun s => (Instant.parse? s).isSome
  else if name = Header.metadata then
    (read? value).bind fun s => written ((Metadata.ofText s).text order)
  else read? value

/-- The text that a record puts under a name. -/
def value (r : ObjectRecord) (order : Metadata.Order) (name : String) : String :=
  ((r.entries order).get? name).getD ""

theorem filter_get?_toFields (r : ObjectRecord) (order : Metadata.Order) {name : String} (hname : name ∈ fieldNames) :
    ((r.toFields order).get? name).filter Fields.validValue = written (r.value order name) := by
  have hentry : (r.entries order).get? name = some (r.value order name) := by
    simp only [fieldNames, List.mem_cons, List.not_mem_nil, or_false] at hname
    rcases hname with rfl | rfl | rfl | rfl | rfl | rfl | rfl | rfl | rfl | rfl <;> rfl
  rw [get?_toFields, hentry, Fields.filter_filter_validValue]

theorem fieldNames_plain : ∀ name ∈ fieldNames, Fields.validName name = true ∧ Text.lower name = name := by decide

/-- What goes over the wire of a record under one of its names. -/
theorem sent?_toFields (r : ObjectRecord) (order : Metadata.Order) {name : String} (hname : name ∈ fieldNames) :
    (r.toFields order).sent? name = written (r.value order name) := by
  have hnames := r.map_fst_toFields_sublist order
  rw [← r.filter_get?_toFields order hname]
  refine Fields.sent?_of_nodup (hnames.nodup (by decide)) fun e he => ?_
  exact fieldNames_plain e.1 (hnames.subset (List.mem_map_of_mem he))

/-- The text of a time, the empty one if there is none. -/
def timeText (time : Option Instant) : String := (time.map (·.millisText)).getD ""

theorem written_timeText (time : Option Instant) : written (timeText time) = time.map (·.millisText) := by
  cases time with
  | none => rfl
  | some t => exact Fields.written_of_isWord t.isWord_millisText t.millisText_ne_empty

/-- A time that is read and written again is the same, or lost. -/
theorem written_timeText_read (time : Option Instant) :
    written (timeText (((written (timeText time)).bind read?).bind Instant.parse?)) =
      (written (timeText time)).bind fun s => (read? s).filter fun s => (Instant.parse? s).isSome := by
  rw [written_timeText, written_timeText]
  cases time with
  | none => rfl
  | some t =>
    have hread : read? t.millisText = some t.millisText := t.isWord_millisText.isPlain.read? t.millisText_ne_empty
    simp only [Option.map_some, Option.bind_some, hread, Option.filter_some]
    cases hparse : Instant.parse? t.millisText with
    | none => rfl
    | some u => simp [Instant.millisText_of_parse? hparse]

variable {r : ObjectRecord} {h : Headers} {name : String} {peer here : Metadata.Order}

theorem isWord_toString (n : Nat) : IsWord (toString n) :=
  Headers.isWord_of_digits fun _ hc => Text.isDigit_of_mem_toString hc

/-- The names of what is a text of a record's own. -/
def textNames : List String := [Header.recordId, Header.site, Header.bucket, Header.name, Header.hash]

/-- Under any other name than those of times and attributes, a value comes back as it is read. -/
theorem carried_of_ne (order : Metadata.Order)
    (hname : name ∉ [Header.creation, Header.expires, Header.metadata]) : carried order name = read? := by
  simp only [List.mem_cons, List.not_mem_nil, or_false, not_or] at hname
  funext value
  rw [carried, if_neg (not_or.mpr ⟨hname.1, hname.2.1⟩), if_neg hname.2.2]

/-- What the block of a record that was read says under each of its names. -/
theorem written_value_ofHeaders (here : Metadata.Order) (hsize : r.size < Text.wordBound)
    (hread : ∀ name ∈ fieldNames, h.text? name = (written (r.value peer name)).bind read?)
    (hname : name ∈ fieldNames) :
    written ((ofHeaders h).value here name) = (written (r.value peer name)).bind (carried here name) := by
  have htext := hread name hname
  -- a value that is kept as it was read
  have hkept {v : String} (hv : v = (h.text? name).getD "") (hcarried : carried here name = read?) :
      written v = (written (r.value peer name)).bind (carried here name) := by
    rw [hv, htext, hcarried, Fields.written_read?]
  simp only [fieldNames, List.mem_cons, List.not_mem_nil, or_false] at hname
  rcases hname with rfl | rfl | rfl | rfl | rfl | rfl | rfl | rfl | rfl | rfl
  · exact hkept rfl (carried_of_ne here (by decide))
  · exact hkept rfl (carried_of_ne here (by decide))
  · exact hkept rfl (carried_of_ne here (by decide))
  · exact hkept rfl (carried_of_ne here (by decide))
  · exact hkept rfl (carried_of_ne here (by decide))
  · have hword := Fields.read?_written_of_isWord r.status.isWord_name r.status.name_ne_empty
    have hstatus : (ofHeaders h).status = r.status := by
      show ((h.text? Header.status).bind Status.parse?).getD .unknown = r.status
      rw [htext]
      show (((written r.status.name).bind read?).bind Status.parse?).getD .unknown = r.status
      rw [hword, Option.bind_some, Status.parse?_name, Option.getD_some]
    rw [carried_of_ne here (by decide)]
    show written (ofHeaders h).status.name = (written r.status.name).bind read?
    rw [hstatus, hword, Fields.written_of_isWord r.status.isWord_name r.status.name_ne_empty]
  · show written (timeText ((h.text? Header.creation).bind Instant.parse?)) = _
    rw [htext]
    exact written_timeText_read r.creation
  · show written (timeText ((h.text? Header.expires).bind Instant.parse?)) = _
    rw [htext]
    exact written_timeText_read r.expires
  · have hword := Fields.read?_written_of_isWord (isWord_toString r.size) (by simp)
    have hsame : (ofHeaders h).size = r.size := by
      show ((h.text? Header.size).bind Text.size?).getD 0 = r.size
      rw [htext]
      show (((written (toString r.size)).bind read?).bind Text.size?).getD 0 = r.size
      rw [hword, Option.bind_some, Text.size?_toString hsize, Option.getD_some]
    rw [carried_of_ne here (by decide)]
    show written (toString (ofHeaders h).size) = (written (toString r.size)).bind read?
    rw [hsame, hword, Fields.written_of_isWord (isWord_toString r.size) (by simp)]
  · show written (Metadata.text (((h.text? Header.metadata).map Metadata.ofText).getD []) here) =
      (written (r.value peer Header.metadata)).bind fun s =>
        (read? s).bind fun s => written ((Metadata.ofText s).text here)
    rw [htext, ← Option.bind_assoc]
    cases (written (r.value peer Header.metadata)).bind read? <;> rfl

/-- Whether the block of a record comes back as it was, from a site that lists attributes in the order `peer` to one
that lists them in the order `here`: its texts are plain as far as they can be written, its attributes are listed
alike if they can, and its times are in years of four digits. -/
structure Portable (r : ObjectRecord) (peer here : Metadata.Order) : Prop where
  text : ∀ s ∈ [r.id, r.site, r.bucket, r.name, r.hash.getD ""], Fields.validValue s = true → IsPlain s
  metadata : Fields.validValue (r.metadata.text peer) = true →
    IsPlain (r.metadata.text peer) ∧ here.list r.metadata = peer.list r.metadata
  time : ∀ t ∈ [r.creation, r.expires], t.all Instant.InFourDigits = true

theorem read?_written_eq_iff (s : String) :
    (written s).bind read? = written s ↔ (Fields.validValue s = true → IsPlain s) := by
  rw [written]
  split
  · rename_i hs
    rw [Option.bind_some, Headers.read?_eq_self_iff hs.1]
    exact ⟨fun hplain _ => hplain, fun hplain => hplain hs.2⟩
  · rename_i hs
    refine ⟨fun _ hvalid => ?_, fun _ => rfl⟩
    obtain rfl : s = "" := Decidable.byContradiction fun hne => hs ⟨hne, hvalid⟩
    decide

theorem carried_timeText_eq_iff (time : Option Instant) :
    ((written (timeText time)).bind fun s => (read? s).filter fun s => (Instant.parse? s).isSome) =
      written (timeText time) ↔ time.all Instant.InFourDigits = true := by
  rw [written_timeText]
  cases time with
  | none => simp
  | some t =>
    have hread : read? t.millisText = some t.millisText := t.isWord_millisText.isPlain.read? t.millisText_ne_empty
    simp only [Option.map_some, Option.bind_some, hread, Option.filter_some, Instant.parse?_millisText,
      Option.all_some, decide_eq_true_eq]
    by_cases hyear : t.InFourDigits <;> simp [hyear]

/-- Attributes come back as they were exactly if their text is plain and they are listed alike, or if they cannot be
written at all. -/
theorem carried_metadata_eq_iff {m : Metadata} (hm : m.Sorted) :
    ((written (m.text peer)).bind fun s => (read? s).bind fun s => written ((Metadata.ofText s).text here)) =
        written (m.text peer) ↔
      (Fields.validValue (m.text peer) = true → IsPlain (m.text peer) ∧ here.list m = peer.list m) := by
  by_cases hne : m = []
  · subst hne
    exact iff_of_true rfl fun _ => ⟨show IsPlain "" by decide, (here.perm []).eq_nil.trans (peer.perm []).eq_nil.symm⟩
  have hempty : m.text peer ≠ "" := fun h => hne (Metadata.text_eq_empty_iff.mp h)
  rw [← Option.bind_assoc]
  by_cases hplain : IsPlain (m.text peer)
  · have hvalid : Fields.validValue (m.text peer) = true := hplain.1.validValue
    rw [Fields.read?_written_of_isPlain hplain hempty, Option.bind_some, Metadata.ofText_text hm hne,
      ← Metadata.text_eq_text_iff hm]
    constructor
    · exact fun h _ => ⟨hplain, Fields.eq_of_written (h.trans (if_pos ⟨hempty, hvalid⟩))⟩
    · exact fun h => congrArg written (h hvalid).2
  · -- what is not plain is not readable either
    have hread : ¬ Headers.IsReadable (m.text peer) := fun h => hplain (Metadata.isPlain_text h)
    rw [Fields.read?_written_of_not_isReadable hread, Option.bind_none]
    constructor
    · intro h hvalid
      cases h.trans (if_pos ⟨hempty, hvalid⟩)
    · exact fun h => (if_neg fun hs => hplain (h hs.2).1).symm

/-- Whether the block comes back as it was. -/
theorem carried_eq_iff (hmetadata : r.metadata.Sorted) :
    (∀ name ∈ fieldNames, (written (r.value peer name)).bind (carried here name) = written (r.value peer name)) ↔
      r.Portable peer here := by
  have htext {name : String} (hname : name ∉ [Header.creation, Header.expires, Header.metadata]) :
      ((written (r.value peer name)).bind (carried here name) = written (r.value peer name)) ↔
        (Fields.validValue (r.value peer name) = true → IsPlain (r.value peer name)) := by
    rw [carried_of_ne here hname, read?_written_eq_iff]
  have htexts : [r.id, r.site, r.bucket, r.name, r.hash.getD ""] = textNames.map (r.value peer) := rfl
  have hnames : ∀ name ∈ textNames,
      name ∈ fieldNames ∧ name ∉ [Header.creation, Header.expires, Header.metadata] := by decide
  have hlisted : (written (r.value peer Header.metadata)).bind (carried here Header.metadata) =
      written (r.value peer Header.metadata) ↔ _ := carried_metadata_eq_iff hmetadata
  constructor
  · intro h
    refine ⟨fun s hs => ?_, hlisted.mp (h Header.metadata (by decide)), fun t ht => ?_⟩
    · rw [htexts, List.mem_map] at hs
      obtain ⟨name, hname, rfl⟩ := hs
      obtain ⟨hmem, hother⟩ := hnames name hname
      exact (htext hother).mp (h name hmem)
    · simp only [List.mem_cons, List.not_mem_nil, or_false] at ht
      rcases ht with rfl | rfl
      · exact (carried_timeText_eq_iff r.creation).mp (h Header.creation (by decide))
      · exact (carried_timeText_eq_iff r.expires).mp (h Header.expires (by decide))
  · intro h name hname
    have hcases : ∀ name ∈ fieldNames, name ∈ textNames ∨ name = Header.status ∨ name = Header.size ∨
        name = Header.creation ∨ name = Header.expires ∨ name = Header.metadata := by decide
    rcases hcases name hname with htextual | rfl | rfl | rfl | rfl | rfl
    · exact (htext (hnames name htextual).2).mpr (h.text _ (htexts ▸ List.mem_map_of_mem htextual))
    · exact (htext (by decide)).mpr fun _ => r.status.isWord_name.isPlain
    · exact (htext (by decide)).mpr fun _ => (isWord_toString r.size).isPlain
    · exact (carried_timeText_eq_iff r.creation).mpr (h.time _ List.mem_cons_self)
    · exact (carried_timeText_eq_iff r.expires).mpr (h.time _ (List.mem_cons_of_mem _ List.mem_cons_self))
    · exact hlisted.mpr h.metadata

end ObjectRecord

end Depot
