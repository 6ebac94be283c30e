import Depot.Proofs.Key
import Depot.Proofs.Text
import Depot.Storage.Directory

/-!
# Keys as paths of a directory

A valid key names a file below the directory of its bucket, and a valid bucket a directory below the root:
none of their segments is empty or relative, and different keys have different segments.

## Main results

* `Key.Valid.segments_inj` — keys with the same segments are the same.
* `Directory.parse_path`, `Directory.parse_bucket` — the paths of valid keys and buckets.
-/

namespace Depot

/-! ## Segments of keys -/

namespace Key

variable {k l : Key}

/-- The segments of the path under which the bytes of an object are stored. -/
def segments (k : Key) : List String := Text.split '/' k.path

theorem Valid.name (h : k.Valid) : isObjectName k.name = true := (valid_iff.mp h).2

theorem segments_eq (h : k.Valid) : k.segments = k.bucket :: Text.split '/' k.name := by
  rw [segments, path, Text.split_append_slash, Text.split_of_not_mem (slash_not_mem h.bucket), List.singleton_append]

theorem exists_split_name (k : Key) : ∃ piece more, Text.split '/' k.name = piece :: more :=
  List.exists_cons_of_ne_nil (Text.split_ne_nil '/' k.name)

theorem Valid.segments_ne_nil (h : k.Valid) : k.segments ≠ [] := by
  rw [segments_eq h]
  exact List.cons_ne_nil _ _

/-- The directory of its bucket is above every object. -/
theorem Valid.bucket_prefix_dropLast (h : k.Valid) : [k.bucket] <+: k.segments.dropLast := by
  rw [segments_eq h, List.dropLast_cons_of_ne_nil (Text.split_ne_nil '/' k.name), List.cons_prefix_cons]
  exact ⟨rfl, List.nil_prefix⟩

theorem Valid.dropLast_ne_nil (h : k.Valid) : k.segments.dropLast ≠ [] := by
  intro heq
  have hprefix := h.bucket_prefix_dropLast
  rw [heq] at hprefix
  cases List.prefix_nil.mp hprefix

theorem Valid.segments_inj (hk : k.Valid) (hl : l.Valid) (h : k.segments = l.segments) : k = l :=
  path_inj hk hl (Text.split_inj h)

end Key

namespace Directory

variable {k : Key} {bucket : String}

theorem startsWith_slash_eq_false {path : String} (h : "" ∉ Text.split '/' path) : path.startsWith "/" = false := by
  rw [String.startsWith_string_eq_false_iff]
  rintro ⟨rest, hrest⟩
  refine h ?_
  rw [Text.split, ← hrest]
  simp [Text.splitList]

/-- The components of a path without empty and relative segments are its segments. -/
theorem components_of_plain {path : String} (h : ∀ s ∈ Text.split '/' path, s ≠ "" ∧ s ≠ "." ∧ s ≠ "..") :
    components path = (Text.split '/' path).map .normal := by
  have hfirst : (Text.split '/' path).head? ≠ some "." := fun hsome => (h _ (List.mem_of_head? hsome)).2.1 rfl
  rw [components, startsWith_slash_eq_false fun hs => (h _ hs).1 rfl]
  simp only [if_neg hfirst, if_neg Bool.false_ne_true, List.nil_append]
  rw [List.filter_eq_self.mpr fun s hs => decide_eq_true ⟨(h s hs).1, (h s hs).2.1⟩]
  exact List.map_congr_left fun s hs => if_neg (h s hs).2.2

/-- A path without empty and relative segments is taken as it is. -/
theorem Path.parse_of_plain {key : String}
    (h : ∀ s ∈ Text.split '/' key, s ≠ "" ∧ s ≠ "." ∧ s ≠ "..") :
    parse key = .ok ⟨Text.split '/' key, .name⟩ := by
  have hlast (s : String) (hs : s ∉ Text.split '/' key) : (Text.split '/' key).getLast? ≠ some s :=
    fun hsome => hs (List.mem_of_getLast? hsome)
  have hfilter : (Text.split '/' key).filter (· ≠ "") = Text.split '/' key :=
    List.filter_eq_self.mpr fun s hs => decide_eq_true (h s hs).1
  rw [parse, components_of_plain h]
  simp only [hfilter, List.filterMap_map]
  rw [if_pos (by simp [Component.isBelow]), if_neg (hlast "." fun hs => (h _ hs).2.1 rfl),
    if_neg (hlast "" fun hs => (h _ hs).1 rfl), show Component.name? ∘ Component.normal = some from rfl,
    List.filterMap_some]

theorem plain_bucket (h : isBucketName bucket = true) : bucket ≠ "" ∧ bucket ≠ "." ∧ bucket ≠ ".." := by
  refine ⟨?_, ?_, ?_⟩ <;> rintro rfl <;> revert h <;> decide

theorem plain_segments (h : k.Valid) {s : String} (hs : s ∈ k.segments) : s ≠ "" ∧ s ≠ "." ∧ s ≠ ".." := by
  rw [Key.segments_eq h] at hs
  rcases List.mem_cons.mp hs with rfl | hs
  · exact plain_bucket h.bucket
  · have hname := h.name
    simp only [isObjectName, Bool.and_eq_true, List.all_eq_true, bne_iff_ne] at hname
    exact and_assoc.mp (hname.2 s hs)

/-- The path of a valid key is that of its segments. -/
theorem parse_path (h : k.Valid) : Path.parse k.path = .ok ⟨k.segments, .name⟩ :=
  Path.parse_of_plain fun _ hs => plain_segments h hs

/-- The path of a valid bucket is its name. -/
theorem parse_bucket (h : isBucketName bucket = true) : Path.parse bucket = .ok ⟨[bucket], .name⟩ := by
  have hsplit : Text.split '/' bucket = [bucket] := Text.split_of_not_mem (slash_not_mem h)
  rw [Path.parse_of_plain (by simpa [hsplit] using plain_bucket h), hsplit]

theorem bucket_ne_staging (h : isBucketName bucket = true) : bucket.startsWith ".tmp" = false := by
  rw [String.startsWith_string_eq_false_iff]
  rintro ⟨rest, hrest⟩
  simp only [isBucketName, ← hrest, Bool.and_eq_true] at h
  have hfirst := h.1.2
  revert hfirst
  simp [isBucketEnd]

theorem bucket_not_prefix_staging (h : isBucketName bucket = true) : ¬ [bucket] <+: staging := by
  rw [staging, List.cons_prefix_cons]
  rintro ⟨rfl, -⟩
  revert h
  decide

theorem segments_ne_staging (h : k.Valid) : k.segments ≠ staging := by
  intro heq
  refine bucket_not_prefix_staging h.bucket ?_
  rw [← heq]
  exact h.bucket_prefix_dropLast.trans (List.dropLast_prefix _)

theorem nul_not_mem_bucket (h : isBucketName bucket = true) : Char.ofNat 0 ∉ bucket.toList := by
  intro hmem
  simp only [isBucketName, Bool.and_eq_true, List.all_eq_true] at h
  exact absurd (h.1.1.2 _ hmem) (by decide)

theorem hasNul_bucket (h : isBucketName bucket = true) : hasNul [bucket] = false := by
  simpa [hasNul] using nul_not_mem_bucket h

theorem hasNul_segments (h : k.Valid) : hasNul k.segments = false := by
  have hname := h.name
  simp only [isObjectName, Bool.and_eq_true, Bool.not_eq_true'] at hname
  have hnul : Char.ofNat 0 ∉ k.name.toList := by simpa using hname.1.2
  rw [hasNul, List.any_eq_false]
  intro s hs hmem
  rw [Key.segments_eq h] at hs
  rcases List.mem_cons.mp hs with rfl | hs
  · exact nul_not_mem_bucket h.bucket (by simpa using hmem)
  · obtain ⟨piece, hpiece, rfl⟩ := List.mem_map.mp hs
    exact hnul (Text.mem_of_mem_splitList hpiece (by simpa using hmem))

end Directory

end Depot
