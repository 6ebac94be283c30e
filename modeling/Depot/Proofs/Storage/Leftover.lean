import Depot.Proofs.Storage.Agreement

/-!
# What a failed write leaves

A write into a directory can fail while it is staged, while its source is read, and when the staged file is
to be moved to its place. Directories that it made stay, and every file is as it was. What differs is the
staging directory: a file whose source failed is removed from it, but one that cannot be moved stays there,
and no operation on a valid bucket or key takes it away again.

## Main results

* `Directory.spread_stage` — staging makes missing directories and changes nothing else.
* `Storage.write_error` — how a write fails, and what each way leaves.
* `Storage.leftBehind_le_performAll` — what was left behind is never fewer.
-/

namespace Depot

namespace Directory

variable {d d' d'' : Directory} {ps qs : List (List String)} {p q : List String} {bytes : Bytes}

/-! ## Directories that are made -/

/-- Whether one storage is another in which some missing directories were made, all of them among `ps`. -/
structure Spread (ps : List (List String)) (d d' : Directory) : Prop where
  leftBehind : d'.leftBehind = d.leftBehind
  longest : d'.longest = d.longest
  node? : ∀ q, d'.node? q = d.node? q ∨ q ∈ ps ∧ d.node? q = none ∧ d'.node? q = some .directory

namespace Spread

theorem refl (ps : List (List String)) (d : Directory) : Spread ps d d := ⟨rfl, rfl, fun _ => .inl rfl⟩

theorem trans (h : Spread ps d d') (h' : Spread ps d' d'') : Spread ps d d'' where
  leftBehind := h'.leftBehind.trans h.leftBehind
  longest := h'.longest.trans h.longest
  node? q := by
    have hfirst := h.node? q
    have hsecond := h'.node? q
    grind

theorem mono (h : Spread ps d d') (hsub : ps ⊆ qs) : Spread qs d d' where
  leftBehind := h.leftBehind
  longest := h.longest
  node? q := (h.node? q).imp_right fun hmade => ⟨hsub hmade.1, hmade.2⟩

theorem isLong (h : Spread ps d d') : d'.isLong = d.isLong := by
  funext name
  unfold Directory.isLong
  rw [h.longest]

theorem node?_of_not_mem (h : Spread ps d d') (hq : q ∉ ps) : d'.node? q = d.node? q :=
  (h.node? q).resolve_right fun hmade => hq hmade.1

theorem directory (h : Spread ps d d') (hq : d.node? q = some .directory) : d'.node? q = some .directory := by
  grind [h.node? q]

/-- Every file stays as it is, and there is no new one. -/
theorem file (h : Spread ps d d') (q : List String) (bytes : Bytes) :
    d'.node? q = some (.file bytes) ↔ d.node? q = some (.file bytes) := by
  grind [h.node? q]

theorem find?_file (h : Spread ps d d') (path : Path) (bytes : Bytes) :
    d'.find? path = some (.file bytes) ↔ d.find? path = some (.file bytes) := by
  have hnode := h.node? path.segments
  unfold find?
  grind

/-- The bytes under every text are the ones they were. -/
theorem get (h : Spread ps d d') (key : String) : d'.get key = d.get key := by
  unfold Directory.get
  cases hparse : Path.parse key with
  | error e => rfl
  | ok path =>
    have hfile := h.find?_file path
    simp only [bind, Except.bind]
    grind

theorem has (h : Spread ps d d') (key : String) : d'.has key = d.has key := by
  unfold Directory.has
  cases hparse : Path.parse key with
  | error e => rfl
  | ok path =>
    have hfile := h.find?_file path
    simp only [bind, Except.bind]
    grind

end Spread

theorem spread_makeOne (d : Directory) (p : List String) : Spread [p] d (d.makeOne p).2 := by
  unfold makeOne
  split
  · exact .refl _ d
  · exact .refl _ d
  · next hnone =>
    split
    · exact .refl _ d
    · have hne : p ≠ [] := by
        rintro rfl
        cases hnone
      refine ⟨rfl, rfl, fun q => ?_⟩
      have hinsert := node?_insert d hne .directory q
      grind

theorem makeOne_ok (h : d.makeOne p = (.ok (), d')) : d'.node? p = some .directory := by
  unfold makeOne at h
  split at h
  · next hnode => cases h; exact hnode
  · cases h
  · next hnone =>
    have hne : p ≠ [] := by
      rintro rfl
      cases hnone
    split at h
    · cases h
    · cases h
      rw [node?_insert d hne, if_pos rfl]

theorem spread_makeEach (d : Directory) (ps : List (List String)) : Spread ps d (d.makeEach ps).2 := by
  induction ps generalizing d with
  | nil => exact .refl [] d
  | cons p ps ih =>
    have hone := (spread_makeOne d p).mono (List.cons_subset_cons p (List.nil_subset ps))
    unfold makeEach
    split
    · next d₁ heq =>
      rw [heq] at hone
      exact hone.trans ((ih d₁).mono (List.subset_cons_self p ps))
    · next heq => rwa [heq] at hone

theorem makeEach_ok (h : d.makeEach ps = (.ok (), d')) : ∀ q ∈ ps, d'.node? q = some .directory := by
  induction ps generalizing d with
  | nil => simp
  | cons p ps ih =>
    unfold makeEach at h
    split at h
    · next d₁ hone =>
      refine List.forall_mem_cons.mpr ⟨?_, ih h⟩
      -- The first directory stays while the others are made.
      have hrest := spread_makeEach d₁ ps
      rw [h] at hrest
      exact hrest.directory (makeOne_ok hone)
    · cases h

theorem spread_makeAll (d : Directory) (p : List String) : Spread (leading p) d (d.makeAll p).2 := by
  unfold makeAll
  split
  · exact .refl _ d
  · split
    · exact .refl _ d
    · exact spread_makeEach d _

theorem makeAll_ok (h : d.makeAll p = (.ok (), d')) (hq : Leads q p) : d'.node? q = some .directory := by
  unfold makeAll at h
  split at h
  · cases h
  · split at h
    · cases h
    · exact makeEach_ok h q (mem_leading.mpr hq)

/-! ## Staging and moving -/

variable {k : Key}

/-- Staging makes missing directories above the file, and changes nothing else. -/
theorem spread_stage (d : Directory) (hk : k.Valid) :
    Spread (leading k.segments.dropLast) d (d.stage k.path).2 := by
  have hmake := spread_makeAll d k.segments.dropLast
  unfold stage
  simp only [parse_path hk]
  split
  · next heq => rwa [heq] at hmake
  · next heq =>
    rw [heq] at hmake
    split <;> exact hmake

theorem stage_ok (hk : k.Valid) (h : d.stage k.path = (.ok (), d')) (hq : Leads q k.segments.dropLast) :
    d'.node? q = some .directory := by
  unfold stage at h
  simp only [parse_path hk] at h
  split at h
  · cases h
  · next d₁ hmake =>
    have hmade := makeAll_ok hmake hq
    split at h <;> cases h
    exact hmade

/-- What stands in the place of a staged file is what stood there before. -/
theorem stage_node? (hk : k.Valid) (h : d.stage k.path = (.ok (), d')) :
    d'.node? k.segments = d.node? k.segments := by
  have hspread := spread_stage d hk
  rw [h] at hspread
  exact hspread.node?_of_not_mem fun hmem => (leads_dropLast.mp (mem_leading.mp hmem)).2 rfl

end Directory

/-! ## One write -/

namespace Storage

variable {d d' : Directory} {k : Key} {source : Source} {e : StoreError} {s : Storage} {op : Operation}

/-- How a write into a directory fails, and how many staged files it leaves behind. -/
inductive Failure (d : Directory) (k : Key) (source : Source) : StoreError → Nat → Prop
  | unstaged {e : StoreError} (h : (d.stage k.path).1 = .error e) : Failure d k source e 0
  | unread {e : ReadError} (hstage : (d.stage k.path).1 = .ok ()) (h : source.readToEnd.2 = some e) :
    Failure d k source (.io e) 0
  /-- The directories are there, but no file can have the name. -/
  | long (hstage : (d.stage k.path).1 = .ok ()) (hread : source.readToEnd.2 = none)
    (h : k.segments.getLast?.any d.isLong = true) : Failure d k source Directory.nameTooLong 1
  /-- A directory stands in the place of the file. -/
  | taken (hstage : (d.stage k.path).1 = .ok ()) (hread : source.readToEnd.2 = none)
    (h : d.node? k.segments = some .directory) : Failure d k source Directory.isADirectory 1

/-- A write succeeds, or fails in one of these ways and has made directories. -/
theorem write_outcome (d : Directory) (hk : k.Valid) (source : Source) :
    (∃ n d', (directory d).write k.path source = (.ok n, directory d') ∧ d'.leftBehind = d.leftBehind) ∨
      ∃ e left staged, Failure d k source e left ∧
        Directory.Spread (Directory.leading k.segments.dropLast) d staged ∧
        (directory d).write k.path source =
          (.error e, directory { staged with leftBehind := staged.leftBehind + left }) := by
  have hspread := Directory.spread_stage d hk
  cases hstage : d.stage k.path with
  | mk result staged =>
    rw [hstage] at hspread
    simp only [write, stage, hstage]
    cases result with
    | error e => exact .inr ⟨e, 0, staged, .unstaged (by rw [hstage]), hspread, rfl⟩
    | ok =>
      have hok : (d.stage k.path).1 = .ok () := by rw [hstage]
      cases hread : source.readToEnd with
      | mk bytes failure =>
        cases failure with
        | some e => exact .inr ⟨.io e, 0, staged, .unread hok (by rw [hread]), hspread, rfl⟩
        | none =>
          have hparents (q : List String) (hq : Directory.Leads q k.segments.dropLast) :=
            Directory.stage_ok hk hstage hq
          have hplace := Directory.stage_node? hk hstage
          simp only [put, Directory.put_below hk hparents, hspread.isLong, hplace]
          split
          · next hlong => exact .inr ⟨_, 1, staged, .long hok (by rw [hread]) hlong, hspread, rfl⟩
          · split
            · next htaken => exact .inr ⟨_, 1, staged, .taken hok (by rw [hread]) htaken, hspread, rfl⟩
            · exact .inl ⟨_, _, rfl, hspread.leftBehind⟩

/-- A write that fails leaves every file as it was, whichever text it is asked for by. It leaves no staged file
behind, unless the source was read to its end and the staged file could not be moved to its place: then it
leaves that one. -/
theorem write_error (hk : k.Valid) (h : (directory d).write k.path source = (.error e, s)) :
    ∃ d' left, s = directory d' ∧ Failure d k source e left ∧ d'.leftBehind = d.leftBehind + left ∧
      (∀ key, s.has key = (directory d).has key ∧ s.get key = (directory d).get key) ∧
      ∀ p bytes, d'.node? p = some (.file bytes) ↔ d.node? p = some (.file bytes) := by
  rcases write_outcome d hk source with ⟨n, d', hok, -⟩ | ⟨e', left, staged, hfailure, hspread, herror⟩
  · rw [hok] at h
    cases h
  · rw [herror] at h
    cases h
    have hcount := congrArg (· + left) hspread.leftBehind
    exact ⟨_, left, rfl, hfailure, hcount, fun key => ⟨hspread.has key, hspread.get key⟩, hspread.file⟩

/-- A directory stands where the bytes are to go, with another object in it. -/
theorem write_error_directory_in_place :
    let d : Directory := { nodes := [([".tmp"], .directory), (["photos"], .directory),
      (["photos", "a"], .directory), (["photos", "a", "b"], .file [1])] }
    let k : Key := ⟨"photos", "a"⟩
    let s : Storage := directory { d with leftBehind := 1 }
    k.Valid ∧ (directory d).write k.path (.ofBytes [2]) = (.error Directory.isADirectory, s) ∧
      ∃ d' left, s = directory d' ∧ Failure d k (.ofBytes [2]) Directory.isADirectory left ∧
        d'.leftBehind = d.leftBehind + left ∧
        (∀ key, s.has key = (directory d).has key ∧ s.get key = (directory d).get key) ∧
        ∀ p bytes, d'.node? p = some (.file bytes) ↔ d.node? p = some (.file bytes) := by
  intro d k s
  have hk : k.Valid := by decide
  have hwrite : (directory d).write k.path (.ofBytes [2]) = (.error Directory.isADirectory, s) := by
    decide +kernel
  exact ⟨hk, hwrite, write_error hk hwrite⟩

/-- Not every failed write leaves as many staged files as there were: the directory of an earlier object is in
the place of the new one. -/
theorem not_leftBehind_eq_of_write_error :
    ¬ ∀ (ops : List Operation) (d d' : Directory) (k : Key) (source : Source) (e : StoreError),
      ((directory {}).performAll ops).2 = directory d → k.Valid →
      (directory d).write k.path source = (.error e, directory d') →
      (∀ l : Key, l.Valid → d'.has l.path = d.has l.path ∧ d'.get l.path = d.get l.path) ∧
        d'.leftBehind = d.leftBehind := by
  intro h
  let d : Directory := { nodes := [([".tmp"], .directory), (["photos"], .directory),
    (["photos", "a"], .directory), (["photos", "a", "b"], .file [1])] }
  have hbuilt : ((directory {}).performAll [.write ⟨"photos", "a/b"⟩ (.ofBytes [1])]).2 = directory d := by
    decide +kernel
  have hfails : (directory d).write (Key.path ⟨"photos", "a"⟩) (.ofBytes [2]) =
      (.error Directory.isADirectory, directory { d with leftBehind := 1 }) := by
    decide +kernel
  have hsame := (h _ d _ ⟨"photos", "a"⟩ _ _ hbuilt (by decide) hfails).2
  cases hsame

/-! ## All operations -/

/-- Only writes change how many staged files are left behind, and none of them takes one away. -/
theorem leftBehind_le_perform (hop : op.Valid) :
    ∃ d', ((directory d).perform op).2 = directory d' ∧ d.leftBehind ≤ d'.leftBehind := by
  cases op with
  | createBucket bucket =>
    refine ⟨(d.createBucket bucket).2, rfl, ?_⟩
    unfold Directory.createBucket
    simp only [Directory.parse_bucket hop]
    exact (Directory.spread_makeAll d [bucket]).leftBehind.ge
  | write k source =>
    rcases write_outcome d hop source with ⟨n, d', hok, hsame⟩ | ⟨e, left, staged, -, hspread, herror⟩
    · exact ⟨d', congrArg Prod.snd hok, hsame.ge⟩
    · refine ⟨_, congrArg Prod.snd herror, ?_⟩
      rw [← hspread.leftBehind]
      exact Nat.le_add_right _ _
  | get k | has k => exact ⟨d, rfl, le_rfl⟩
  | erase k =>
    refine ⟨(d.erase k.path).2, rfl, ?_⟩
    rw [Directory.erase_path d hop]
    split <;> exact le_rfl
  | eraseBucket bucket =>
    refine ⟨(d.eraseBucket bucket).2, rfl, ?_⟩
    rw [Directory.eraseBucket_bucket d hop]
    have hstaging : ¬ [bucket].isPrefixOf Directory.staging = true := fun hprefix =>
      Directory.bucket_not_prefix_staging hop (List.isPrefixOf_iff_prefix.mp hprefix)
    split
    · unfold Directory.eraseBelow
      rw [if_neg hstaging]
    · exact le_rfl

/-- A staged file that was left behind stays, whatever valid buckets and keys are operated on afterwards. -/
theorem leftBehind_le_performAll {ops : List Operation} (hops : ∀ op ∈ ops, op.Valid) :
    ∃ d', ((directory d).performAll ops).2 = directory d' ∧ d.leftBehind ≤ d'.leftBehind := by
  induction ops generalizing d with
  | nil => exact ⟨d, rfl, le_rfl⟩
  | cons op ops ih =>
    obtain ⟨hop, hrest⟩ := List.forall_mem_cons.mp hops
    obtain ⟨d₁, hone, hle⟩ := leftBehind_le_perform (d := d) hop
    obtain ⟨d₂, hall, hle'⟩ := ih (d := d₁) hrest
    rw [← hone] at hall
    exact ⟨d₂, hall, hle.trans hle'⟩

end Storage

end Depot
