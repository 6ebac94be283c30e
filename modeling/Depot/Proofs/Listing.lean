import Depot.Listing
import Depot.Proofs.Bytes
import Depot.Proofs.Record.Reading
import Depot.Proofs.Source

/-!
# Listings are read back

A listing is a line for each of its records. No text of a record goes over the end of its line, whatever
characters its names hold, so that the lines of a listing are those of its records, and are read back as them.

## Main results

* `Json.newline_not_mem_compact` — a compact text is one line.
* `Listing.read?_lines` — a listing is read back.
-/

namespace Depot

namespace Json

/-! ## Compact texts are single lines -/

theorem newline_not_mem_escape (c : Char) : '\n' ∉ escape c := by
  have hdigits : ∀ n < 32, Text.hexDigit n ≠ '\n' := by decide
  unfold escape
  split_ifs <;> simp <;> grind

theorem newline_not_mem_quote (s : String) : '\n' ∉ (quote s).toList := by
  rw [Reader.toList_quote]
  simp [newline_not_mem_escape]

theorem newline_not_mem_intercalate {pieces : List String} (h : ∀ s ∈ pieces, '\n' ∉ s.toList) :
    '\n' ∉ (",".intercalate pieces).toList := by
  rw [String.toList_intercalate]
  induction pieces with
  | nil => simp
  | cons s rest ih =>
    have hrest := ih fun t ht => h t (List.mem_cons_of_mem _ ht)
    have hfirst := h s List.mem_cons_self
    cases rest with
    | nil => simpa using hfirst
    | cons t rest =>
      rw [List.map_cons] at hrest ⊢
      rw [List.map_cons, List.intercalate_cons_cons]
      simp only [List.mem_append, not_or]
      exact ⟨⟨hfirst, by decide⟩, hrest⟩

theorem newline_not_mem_toString (n : Int) : '\n' ∉ (toString n).toList := by
  have hnat (m : Nat) : '\n' ∉ (toString m).toList :=
    fun h => absurd (Text.isDigit_of_mem_toString h).1 (by decide)
  cases n with
  | ofNat m => exact hnat m
  | negSucc m =>
    have htext : toString (Int.negSucc m) = "-" ++ toString (m + 1) := rfl
    rw [htext, String.toList_append]
    simp only [List.mem_append, not_or]
    exact ⟨by decide, hnat _⟩

theorem compact_array (items : List Json) :
    compact (.array items) = "[" ++ ",".intercalate (items.map compact) ++ "]" := by
  rw [compact, List.attach_map_val (f := compact)]

/-- A compact text is one line. -/
theorem newline_not_mem_compact (j : Json) : '\n' ∉ j.compact.toList := by
  induction j using compact.induct with
  | case1 => simp [compact]
  | case2 | case3 => simp [compact, *]
  | case4 n =>
    rw [compact]
    exact newline_not_mem_toString n
  | case5 s =>
    rw [compact_string]
    exact newline_not_mem_quote s
  | case6 items ih =>
    have hitems : ∀ s ∈ items.map compact, '\n' ∉ s.toList := by simpa using ih
    rw [compact_array, String.toList_append, String.toList_append]
    simp only [List.mem_append, not_or]
    exact ⟨⟨by decide, newline_not_mem_intercalate hitems⟩, by decide⟩
  | case7 fields ih =>
    have hfields : ∀ s ∈ fields.map (fun f => quote f.1 ++ ":" ++ compact f.2), '\n' ∉ s.toList := by
      intro s hs
      obtain ⟨f, hf, rfl⟩ := List.mem_map.mp hs
      simp [newline_not_mem_quote, ih f hf]
    rw [compact_object, String.toList_append, String.toList_append]
    simp only [List.mem_append, not_or]
    exact ⟨⟨by decide, newline_not_mem_intercalate hfields⟩, by decide⟩

end Json

namespace Listing

/-! ## Reading the lines -/

/-- The lines of bytes that are a text, all of it in lines. -/
def lines? (b : Bytes) : Option (List String) :=
  (Bytes.text? b).bind fun s =>
    let pieces := Text.split '\n' s
    if pieces.getLast? = some "" then some pieces.dropLast else none

/-- The records that are read of the lines. -/
def read? (b : Bytes) : Option (List ObjectRecord) :=
  (lines? b).bind fun lines => lines.mapM fun s => (ObjectRecord.ofText s).toOption

/-- A line ends where its newline is. -/
theorem splitList_lines {lines : List (List Char)} (h : ∀ l ∈ lines, '\n' ∉ l) :
    Text.splitList '\n' (lines.flatMap (· ++ ['\n'])) = lines ++ [[]] := by
  induction lines with
  | nil => rfl
  | cons l rest ih =>
    rw [List.flatMap_cons, List.append_assoc, List.singleton_append, Text.splitList_eq_splitOn,
      List.splitOn_append_cons_self_of_not_mem (h l List.mem_cons_self), ← Text.splitList_eq_splitOn,
      ih fun l hl => h l (List.mem_cons_of_mem _ hl)]
    rfl

/-- The text of a listing. -/
def text (records : List ObjectRecord) : String :=
  String.ofList ((records.map fun r => r.toJson.compact.toList).flatMap (· ++ ['\n']))

theorem lines_eq (records : List ObjectRecord) : records.flatMap line = Bytes.ofText (text records) := by
  induction records with
  | nil => simp [text, Bytes.ofText_eq_flatMap]
  | cons r rest ih =>
    have htext : text (r :: rest) = r.toJson.compact ++ "\n" ++ text rest := by
      apply String.toList_inj.mp
      simp [text]
    rw [List.flatMap_cons, ih, htext, Bytes.ofText_append, line]

theorem lines?_lines (records : List ObjectRecord) :
    lines? (records.flatMap line) = some (records.map fun r => r.toJson.compact) := by
  have hsplit : Text.split '\n' (text records) = (records.map fun r => r.toJson.compact) ++ [""] := by
    rw [Text.split, text, String.toList_ofList, splitList_lines (by simp [Json.newline_not_mem_compact])]
    simp
  rw [lines?, lines_eq, Bytes.text?_ofText, Option.bind_some, hsplit]
  simp

/-- A listing is read back. -/
theorem read?_lines {records : List ObjectRecord} (h : ∀ r ∈ records, r.WellTyped) :
    read? (records.flatMap line) = some records := by
  rw [read?, lines?_lines, Option.bind_some]
  induction records with
  | nil => rfl
  | cons r rest ih =>
    have hrest := ih fun r hr => h r (List.mem_cons_of_mem _ hr)
    rw [List.map_cons, List.mapM_cons, ObjectRecord.ofText_compact (h r List.mem_cons_self), hrest]
    rfl

/-- The bytes of a listing are its lines. -/
theorem bytes_source (records : List ObjectRecord) : (source records).bytes = records.flatMap line := by
  simp [source, Source.ofPieces, Source.bytes, List.flatMap_map]

theorem clean_source (records : List ObjectRecord) : (source records).Clean := by
  simp [source, Source.ofPieces, Source.Clean]

end Listing

end Depot
