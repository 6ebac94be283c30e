import Depot.Proofs.Storage.Memory
import Depot.Proofs.Storage.Path
import Depot.Storage

/-!
# What the storage in a directory holds

What stands at each path after an operation of the storage in a directory. Where nothing is in the way,
making a directory makes those that lead to it and changes nothing else.

## Main results

* `Directory.makeAll_of_room` — where there is room, all directories that lead to a path are made.
* `Storage.write_directory` — bytes take their place, unless a directory stands there.
-/

namespace Depot

namespace Directory

variable {d d' : Directory} {p q : List String}

theorem node?_of_ne_nil (d : Directory) (hp : p ≠ []) : d.node? p = SortedMap.get? d.nodes p := by
  rw [node?, if_neg (by simpa using hp)]

/-- At first there is only the directory for staged files. -/
theorem node?_empty (longest : Option Nat) (hp : p ≠ []) :
    ({ longest } : Directory).node? p = if p = staging then some .directory else none := by
  rw [node?_of_ne_nil _ hp]
  by_cases h : p = staging
  · rw [if_pos h, h]
    rfl
  · rw [if_neg h, SortedMap.get?, List.find?_cons_of_neg (by simpa [staging] using Ne.symm h)]
    rfl

/-! ## Changes -/

theorem node?_insert (d : Directory) (hp : p ≠ []) (n : Node) (q : List String) :
    ({ d with nodes := SortedMap.insert d.nodes p n } : Directory).node? q =
      if q = p then some n else d.node? q := by
  cases q with
  | nil => rw [if_neg (Ne.symm hp)]; rfl
  | cons s q =>
    rw [node?_of_ne_nil _ (List.cons_ne_nil s q), node?_of_ne_nil d (List.cons_ne_nil s q)]
    exact SortedMap.get?_insert d.nodes p (s :: q) n

theorem node?_erase (d : Directory) (hp : p ≠ []) (q : List String) :
    ({ d with nodes := SortedMap.erase d.nodes p } : Directory).node? q =
      if q = p then none else d.node? q := by
  cases q with
  | nil => rw [if_neg (Ne.symm hp)]; rfl
  | cons s q =>
    rw [node?_of_ne_nil _ (List.cons_ne_nil s q), node?_of_ne_nil d (List.cons_ne_nil s q)]
    exact SortedMap.get?_erase d.nodes p (s :: q)

theorem node?_eraseBelow (d : Directory) (hp : p ≠ []) (q : List String) :
    (d.eraseBelow p true).node? q = if p <+: q then none else d.node? q := by
  cases q with
  | nil => rw [if_neg (mt List.prefix_nil.mp hp)]; rfl
  | cons s q =>
    rw [node?_of_ne_nil _ (List.cons_ne_nil s q), node?_of_ne_nil d (List.cons_ne_nil s q), eraseBelow]
    simp only [Bool.true_or, Bool.and_true]
    rw [SortedMap.get?_filter d.nodes fun r => !p.isPrefixOf r]
    by_cases h : p <+: s :: q
    · simp [h, List.isPrefixOf_iff_prefix.mpr h]
    · have hno : p.isPrefixOf (s :: q) = false :=
        Bool.eq_false_iff.mpr fun hyes => h (List.isPrefixOf_iff_prefix.mp hyes)
      simp [h, hno]

/-! ## Making directories -/

/-- Whether one path leads to another, or is the same, below the root. -/
def Leads (q p : List String) : Prop := q ≠ [] ∧ q <+: p

instance (q p : List String) : Decidable (Leads q p) := inferInstanceAs (Decidable (_ ∧ _))

theorem Leads.trans {r : List String} (h : Leads r q) (h' : q <+: p) : Leads r p := ⟨h.1, h.2.trans h'⟩

theorem leads_dropLast : Leads q p.dropLast ↔ Leads q p ∧ q ≠ p := by
  constructor
  · rintro ⟨hne, hleads⟩
    refine ⟨⟨hne, hleads.trans (List.dropLast_prefix p)⟩, ?_⟩
    rintro rfl
    have hpos := List.length_pos_iff.mpr hne
    have hle := hleads.length_le
    rw [List.length_dropLast] at hle
    omega
  · rintro ⟨⟨hne, rest, rfl⟩, hother⟩
    have hrest : rest ≠ [] := by
      rintro rfl
      exact hother (List.append_nil q).symm
    exact ⟨hne, by rw [List.dropLast_append_of_ne_nil hrest]; exact List.prefix_append ..⟩

theorem mem_leading : q ∈ leading p ↔ Leads q p := by
  simp only [leading, List.mem_map, List.mem_range]
  constructor
  · rintro ⟨i, hi, rfl⟩
    refine ⟨List.ne_nil_of_length_pos ?_, List.take_prefix ..⟩
    rw [List.length_take]
    omega
  · rintro ⟨hq, hleads⟩
    have hpos := List.length_pos_iff.mpr hq
    have hle := hleads.length_le
    refine ⟨q.length - 1, by omega, ?_⟩
    rw [show q.length - 1 + 1 = q.length by omega]
    exact (List.prefix_iff_eq_take.mp hleads).symm

/-- Whether no file is on the way to a path, or at it. -/
def Clear (d : Directory) (p : List String) : Prop := ∀ q, Leads q p → ∀ bytes, d.node? q ≠ some (.file bytes)

theorem Clear.crossesFile (h : d.Clear p) : d.crossesFile p = false := by
  rw [Directory.crossesFile, List.any_eq_false]
  intro q hq
  cases hnode : d.node? q with
  | none => simp
  | some n =>
    cases n with
    | directory => simp
    | file bytes => exact absurd hnode (h q (mem_leading.mp hq) bytes)

theorem Clear.dropLast (h : d.Clear p) : d.Clear p.dropLast :=
  fun q hq => h q (hq.trans (List.dropLast_prefix p))

/-- Whether a directory can be made where its parent is: it is no file, and its name is not too long. -/
structure Makeable (d : Directory) (p : List String) : Prop where
  ne_nil : p ≠ []
  short : p.getLast?.any d.isLong = false
  clear : ∀ bytes, d.node? p ≠ some (.file bytes)

theorem Makeable.makeOne (h : d.Makeable p) : ∃ d', d.makeOne p = (.ok (), d') ∧ d'.longest = d.longest ∧
    ∀ q, d'.node? q = if q = p then some .directory else d.node? q := by
  rw [Directory.makeOne]
  cases hnode : d.node? p with
  | none =>
    refine ⟨{ d with nodes := SortedMap.insert d.nodes p .directory }, ?_, rfl,
      node?_insert d h.ne_nil .directory⟩
    simp [h.short]
  | some n =>
    cases n with
    | directory =>
      refine ⟨d, rfl, rfl, fun q => ?_⟩
      split
      · next heq => rw [heq, hnode]
      · rfl
    | file bytes => exact absurd hnode (h.clear bytes)

theorem makeEach_of_makeable {ps : List (List String)} (h : ∀ p ∈ ps, d.Makeable p) :
    ∃ d', d.makeEach ps = (.ok (), d') ∧ d'.longest = d.longest ∧
      ∀ q, d'.node? q = if q ∈ ps then some .directory else d.node? q := by
  induction ps generalizing d with
  | nil => exact ⟨d, rfl, rfl, fun q => by simp⟩
  | cons p ps ih =>
    obtain ⟨hp, hps⟩ := List.forall_mem_cons.mp h
    obtain ⟨d₁, hone, hlongest₁, hnode₁⟩ := hp.makeOne
    have hnext : ∀ r ∈ ps, d₁.Makeable r := by
      intro r hr
      have hlong : d₁.isLong = d.isLong := by
        funext name
        rw [isLong, isLong, hlongest₁]
      refine ⟨(hps r hr).ne_nil, hlong ▸ (hps r hr).short, fun bytes => ?_⟩
      rw [hnode₁]
      split
      · simp
      · exact (hps r hr).clear bytes
    obtain ⟨d₂, heach, hlongest₂, hnode₂⟩ := ih hnext
    refine ⟨d₂, by rw [makeEach, hone]; exact heach, hlongest₂.trans hlongest₁, fun q => ?_⟩
    rw [hnode₂, hnode₁]
    grind

/-- Whether the directories that lead to a path can be made, itself included. -/
structure Room (d : Directory) (p : List String) : Prop where
  nul : hasNul p = false
  short : ∀ s ∈ p, d.isLong s = false
  clear : d.Clear p

/-- Whether one storage is another in which the directories that lead to a path were made. -/
structure Grown (d : Directory) (p : List String) (d' : Directory) : Prop where
  longest : d'.longest = d.longest
  node? : ∀ q, d'.node? q = if Leads q p then some .directory else d.node? q

/-- Where there is room, the directories that lead to a path are made. -/
theorem makeAll_of_room (h : d.Room p) : ∃ d', d.makeAll p = (.ok (), d') ∧ d.Grown p d' := by
  have hmakeable : ∀ q ∈ leading p, d.Makeable q := by
    intro q hq
    obtain ⟨hne, hleads⟩ := mem_leading.mp hq
    refine ⟨hne, ?_, h.clear q ⟨hne, hleads⟩⟩
    rw [List.getLast?_eq_some_getLast hne]
    exact h.short _ (hleads.subset (List.getLast_mem hne))
  obtain ⟨d', heach, hlongest, hnode⟩ := makeEach_of_makeable hmakeable
  refine ⟨d', ?_, hlongest, fun q => ?_⟩
  · rw [makeAll, if_neg (by simp [h.nul]), if_neg (by simp [h.clear.dropLast.crossesFile])]
    exact heach
  · rw [hnode]
    simp only [mem_leading]

/-! ## Operations on valid buckets and keys -/

variable {bucket : String} {k : Key}

theorem createBucket_of_room (hb : isBucketName bucket = true) (h : d.Room [bucket]) :
    ∃ d', d.createBucket bucket = (.ok (), d') ∧ d.Grown [bucket] d' := by
  rw [createBucket, parse_bucket hb]
  exact makeAll_of_room h

theorem find?_path (d : Directory) (p : List String) : d.find? ⟨p, .name⟩ = d.node? p := by
  rw [find?]
  split <;> simp_all

theorem get_path (d : Directory) (hk : k.Valid) : d.get k.path =
    match d.node? k.segments with
    | some (.file bytes) => .ok bytes
    | _ => .error (.bytesMissing k.path) := by
  rw [get, parse_path hk]
  simp only [bind, Except.bind, find?_path]
  split <;> simp_all [pure, Except.pure, throw, throwThe, MonadExceptOf.throw]

theorem has_path (d : Directory) (hk : k.Valid) : d.has k.path =
    match d.node? k.segments with
    | some (.file _) => .ok true
    | _ => .ok false := by
  rw [has, parse_path hk]
  simp only [bind, Except.bind, find?_path]
  split <;> simp_all [pure, Except.pure]

theorem erase_path (d : Directory) (hk : k.Valid) : d.erase k.path =
    match d.node? k.segments with
    | some .directory => (.error isADirectory, d)
    | some (.file _) => (.ok (), { d with nodes := SortedMap.erase d.nodes k.segments })
    | none => (.ok (), d) := by
  rw [erase, parse_path hk]
  rcases hnode : d.node? k.segments with _ | _ | bytes <;> simp only [find?_path, hnode]

theorem eraseBucket_bucket (d : Directory) (hb : isBucketName bucket = true) : d.eraseBucket bucket =
    if d.node? [bucket] = some .directory then (.ok (), d.eraseBelow [bucket] true) else (.ok (), d) := by
  rw [eraseBucket, parse_bucket hb]
  simp [bucket_ne_staging hb]

/-- Where there is room, a file is staged. -/
theorem stage_path (hk : k.Valid) (hroom : d.Room k.segments.dropLast)
    (hstaging : d.node? staging = some .directory) :
    ∃ d', d.stage k.path = (.ok (), d') ∧ d.Grown k.segments.dropLast d' := by
  obtain ⟨d', hmake, hgrown⟩ := makeAll_of_room hroom
  refine ⟨d', ?_, hgrown⟩
  have hstill : d'.node? staging = some .directory := by
    rw [hgrown.node?, hstaging, ite_self]
  rw [stage, parse_path hk]
  simp only [hmake, hstill]

/-- Below directories, a staged file takes its place unless its name is too long or a directory stands there. -/
theorem put_below (hk : k.Valid)
    (hparents : ∀ q, Leads q k.segments.dropLast → d.node? q = some .directory) (bytes : Bytes) :
    d.put k.path bytes =
      if k.segments.getLast?.any d.isLong then
        (.error nameTooLong, { d with leftBehind := d.leftBehind + 1 })
      else if d.node? k.segments = some .directory then
        (.error isADirectory, { d with leftBehind := d.leftBehind + 1 })
      else (.ok bytes.length, { d with nodes := SortedMap.insert d.nodes k.segments (.file bytes) }) := by
  have hclear : d.Clear k.segments.dropLast := by
    intro q hq bytes hfile
    rw [hparents q hq] at hfile
    cases hfile
  have hparent : (d.node? k.segments.dropLast).isNone = false := by
    by_cases hroot : k.segments.dropLast = []
    · rw [hroot]
      rfl
    · rw [hparents _ ⟨hroot, List.prefix_refl _⟩]
      rfl
  rw [put, parse_path hk]
  simp only [obstacle?, hasNul_segments hk, hclear.crossesFile, hparent]
  by_cases hlong : k.segments.getLast?.any d.isLong = true
  · simp [hlong]
  · by_cases hdirectory : d.node? k.segments = some .directory <;> simp [hlong, hdirectory]

/-- Below directories, a staged file takes its place unless a directory stands there. -/
theorem put_path (hk : k.Valid) (hshort : ∀ s ∈ k.segments, d.isLong s = false)
    (hparents : ∀ q, Leads q k.segments.dropLast → d.node? q = some .directory) (bytes : Bytes) :
    d.put k.path bytes =
      if d.node? k.segments = some .directory then
        (.error isADirectory, { d with leftBehind := d.leftBehind + 1 })
      else (.ok bytes.length, { d with nodes := SortedMap.insert d.nodes k.segments (.file bytes) }) := by
  have hlast : k.segments.getLast?.any d.isLong = false := by
    rw [Option.any_eq_false]
    exact fun s hs => by simp [hshort s (List.mem_of_getLast? hs)]
  rw [put_below hk hparents, if_neg (by simp [hlast])]

end Directory

/-- Bytes take their place, unless a directory stands there. -/
theorem Storage.write_directory {d : Directory} {k : Key} (hk : k.Valid)
    (hshort : ∀ s ∈ k.segments, d.isLong s = false) (hclear : d.Clear k.segments.dropLast)
    (hstaging : d.node? Directory.staging = some .directory) (source : Source) :
    ∃ d', d.Grown k.segments.dropLast d' ∧ (directory d).write k.path source =
      match source.readToEnd with
      | (_, some e) => (.error (.io e), directory d')
      | (bytes, none) =>
        if d.node? k.segments = some .directory then
          (.error Directory.isADirectory, directory { d' with leftBehind := d'.leftBehind + 1 })
        else
          (.ok bytes.length, directory { d' with nodes := SortedMap.insert d'.nodes k.segments (.file bytes) }) := by
  have hroom : d.Room k.segments.dropLast := by
    refine ⟨?_, fun s hs => hshort s ((List.dropLast_prefix _).subset hs), hclear⟩
    have hnul := Directory.hasNul_segments hk
    rw [Directory.hasNul, List.any_eq_false] at hnul ⊢
    exact fun s hs => hnul s ((List.dropLast_prefix _).subset hs)
  obtain ⟨d', hstage, hgrown⟩ := Directory.stage_path hk hroom hstaging
  have hshort' : ∀ s ∈ k.segments, d'.isLong s = false := by
    simpa only [Directory.isLong, hgrown.longest] using hshort
  have hparents (q : List String) (hq : Directory.Leads q k.segments.dropLast) :
      d'.node? q = some .directory := by
    rw [hgrown.node?, if_pos hq]
  have hsame : d'.node? k.segments = d.node? k.segments := by
    rw [hgrown.node?, if_neg fun h => (Directory.leads_dropLast.mp h).2 rfl]
  refine ⟨d', hgrown, ?_⟩
  simp only [write, stage, hstage]
  cases hread : source.readToEnd with
  | mk bytes error =>
    cases error with
    | some e => rfl
    | none =>
      simp only [put, Directory.put_path hk hshort' hparents, hsame]
      split <;> rfl

end Depot
