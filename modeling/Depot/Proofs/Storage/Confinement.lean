import Depot.Proofs.Storage.Leftover

/-!
# Nothing outside the root

Where a text leads from a root is decided by its components: an empty piece and a dot stay, two dots go up, a slash in
front starts from the top. A storage in a directory takes the texts that only stay and go down, so what it makes,
reads and removes for any text is below its root, and names of entries are all it adds to the root. Valid keys lead to
different places, inside the directories of their buckets and away from the staged files.

## Main definitions

* `Directory.resolve` — the path of a text below a root.
* `Directory.place` — where a path leads.
* `Directory.Touches` — what an operation may make and remove.

## Main results

* `Directory.steps_join` — an accepted text adds names to the root, and nothing else.
* `Storage.access_touches` — an operation stays on the way to its text and below it.
* `Storage.confined` — keys do not collide, and no operation leaves the root.
-/

namespace Depot

namespace Directory

/-! ## Components -/

section Components

variable {base key : String} {p : Path}

/-- Whether a name is that of an entry in a directory. -/
def Ordinary (name : String) : Prop := name ≠ "" ∧ name ≠ "." ∧ name ≠ ".." ∧ '/' ∉ name.toList

instance : DecidablePred Ordinary := fun _ => inferInstanceAs (Decidable (_ ∧ _))

/-- The component that a piece of a path is. -/
def component (name : String) : Component := if name = ".." then .parent else .normal name

/-- The pieces of a path that lead anywhere. -/
def names (path : String) : List String := (Text.split '/' path).filter fun s => s ≠ "" ∧ s ≠ "."

theorem names_append (base path : String) : names (base ++ "/" ++ path) = names base ++ names path := by
  rw [names, Text.split_append_slash, List.filter_append]
  rfl

theorem components_eq (path : String) : components path = (if path.startsWith "/" then [.root]
    else if (Text.split '/' path).head? = some "." then [.current] else []) ++ (names path).map component := rfl

/-- The components of a path without its dots. -/
def steps (path : String) : List Component := (components path).filter (· ≠ .current)

theorem steps_eq (path : String) :
    steps path = (if path.startsWith "/" then [.root] else []) ++ (names path).map component := by
  have hnames : ((names path).map component).filter (· ≠ .current) = (names path).map component := by
    refine List.filter_eq_self.mpr fun c hc => ?_
    obtain ⟨s, -, rfl⟩ := List.mem_map.mp hc
    unfold component
    split <;> rfl
  rw [steps, components_eq, List.filter_append, hnames]
  by_cases hroot : path.startsWith "/" = true
  · rw [if_pos hroot, if_pos hroot]
    rfl
  · rw [if_neg hroot, if_neg hroot]
    split <;> rfl

theorem startsWith_slash_iff (path : String) : path.startsWith "/" = true ↔ path.toList.head? = some '/' := by
  rw [String.startsWith_string_iff]
  cases path.toList <;> simp [List.cons_prefix_cons, eq_comm]

/-- A text is accepted if it does not start from the top and never goes up. -/
theorem parse_eq_ok_iff (key : String) :
    (∃ p, Path.parse key = .ok p) ↔ key.startsWith "/" = false ∧ ".." ∉ Text.split '/' key := by
  have hall : (components key).all Component.isBelow = true ↔
      key.startsWith "/" = false ∧ ".." ∉ Text.split '/' key := by
    have hnames : ((names key).map component).all Component.isBelow = true ↔ ".." ∉ Text.split '/' key := by
      rw [List.all_map, List.all_eq_true]
      constructor
      · intro h hmem
        exact absurd (h ".." (List.mem_filter.mpr ⟨hmem, rfl⟩)) (by decide)
      · intro h s hs
        have hne : s ≠ ".." := fun heq => h (heq ▸ (List.mem_filter.mp hs).1)
        simp [component, hne, Component.isBelow]
    rw [components_eq, List.all_append, Bool.and_eq_true, hnames]
    refine and_congr_left' ?_
    cases key.startsWith "/"
    · simp only [Bool.false_eq_true, if_false, iff_true]
      split <;> rfl
    · simp [Component.isBelow]
  rw [← hall, Path.parse]
  split
  · next h => exact iff_of_true ⟨_, rfl⟩ h
  · next h => exact iff_of_false (by simp) h

/-- The steps of an accepted text are its names, and each of them is that of an entry. -/
theorem steps_of_parse (h : Path.parse key = .ok p) :
    steps key = p.segments.map .normal ∧ ∀ s ∈ p.segments, Ordinary s := by
  obtain ⟨hroot, hparent⟩ := (parse_eq_ok_iff key).mp ⟨p, h⟩
  have hname (s : String) (hs : s ∈ names key) : component s = .normal s ∧ Ordinary s := by
    obtain ⟨hmem, hs⟩ := List.mem_filter.mp hs
    have hup : s ≠ ".." := fun heq => hparent (heq ▸ hmem)
    obtain ⟨hempty, hdot⟩ := of_decide_eq_true hs
    exact ⟨if_neg hup, hempty, hdot, hup, Text.sep_not_mem_of_mem_split hmem⟩
  have hsteps : (names key).map component = (names key).map .normal := List.map_congr_left fun s hs => (hname s hs).1
  have hsegments : p.segments = names key := by
    rw [Path.parse] at h
    split at h
    · cases h
      rw [components_eq, hsteps, List.filterMap_append, if_neg (by simp [hroot]), List.filterMap_map,
        show Component.name? ∘ Component.normal = some from rfl, List.filterMap_some]
      split <;> rfl
    · cases h
  rw [hsegments, steps_eq, if_neg (by simp [hroot]), List.nil_append]
  exact ⟨hsteps, fun s hs => (hname s hs).2⟩

/-! ## Where a path leads -/

/-- A path below another one; one that starts with a slash stands for itself. -/
def join (base path : String) : String :=
  if path.startsWith "/" then path
  else if base.toList.getLast?.all (· = '/') then base ++ path
  else base ++ "/" ++ path

/-- The path of a text below a root, unless it leads out of it. -/
def resolve (base key : String) : Except StoreError String := (Path.parse key).map fun _ => join base key

/-- An accepted text adds its own steps to those of the root. -/
theorem steps_join (base : String) (h : key.startsWith "/" = false) :
    steps (join base key) = steps base ++ steps key := by
  have hhead : key.toList.head? ≠ some '/' := fun heq => by
    rw [(startsWith_slash_iff key).mpr heq] at h
    cases h
  have hnames : names (join base key) = names base ++ names key := by
    rw [join, if_neg (by simp [h])]
    split
    · next hlast =>
      rcases List.eq_nil_or_concat base.toList with hnil | ⟨cs, c, hcs⟩
      · rw [String.toList_eq_nil_iff.mp hnil, String.empty_append]
        rfl
      · -- The slash at the end of the root is the one between the two.
        obtain rfl : c = '/' := by simpa [hcs] using hlast
        obtain rfl : base = String.ofList cs ++ "/" := String.toList_inj.mp (by simp [hcs])
        have hbase := names_append (String.ofList cs) ""
        rw [String.append_empty] at hbase
        rw [names_append, hbase]
        exact congrArg (· ++ names key) (List.append_nil _).symm
    · exact names_append base key
  have hroot : (join base key).startsWith "/" = base.startsWith "/" := by
    rw [Bool.eq_iff_iff, startsWith_slash_iff, startsWith_slash_iff, join, if_neg (by simp [h])]
    cases hbase : base.toList <;> split <;> simp_all
  have hkey : steps key = (names key).map component := by
    rw [steps_eq, if_neg (by simp [h]), List.nil_append]
  rw [steps_eq, steps_eq base, hkey, hroot, hnames, List.map_append, List.append_assoc]

/-- Where components lead from a directory, in the absence of symbolic links. -/
def walk (here : List String) : List Component → List String
  | [] => here
  | .root :: rest => walk [] rest
  | .current :: rest => walk here rest
  | .parent :: rest => walk here.dropLast rest
  | .normal name :: rest => walk (here ++ [name]) rest

/-- Where a path leads from a directory. -/
def place (here : List String) (path : String) : List String := walk here (components path)

variable (here : List String)

theorem walk_append (xs ys : List Component) : walk here (xs ++ ys) = walk (walk here xs) ys := by
  induction xs generalizing here with
  | nil => rfl
  | cons c xs ih => cases c <;> exact ih _

theorem walk_names (names : List String) : walk here (names.map .normal) = here ++ names := by
  induction names generalizing here with
  | nil => exact (List.append_nil here).symm
  | cons name names ih => exact (ih _).trans (by simp)

theorem walk_filter (xs : List Component) : walk here (xs.filter (· ≠ .current)) = walk here xs := by
  induction xs generalizing here with
  | nil => rfl
  | cons c xs ih => cases c <;> exact ih _

theorem place_eq (path : String) : place here path = walk here (steps path) := (walk_filter here _).symm

/-- An accepted text leads as far below the root as it has names. -/
theorem place_join (base : String) (h : Path.parse key = .ok p) :
    place here (join base key) = place here base ++ p.segments := by
  have hroot := ((parse_eq_ok_iff key).mp ⟨p, h⟩).1
  rw [place_eq, steps_join base hroot, (steps_of_parse h).1, walk_append, walk_names, ← place_eq]

end Components

/-! ## What operations touch -/

variable {d d' d'' : Directory} {p q : List String} {path : Path} {text : String}

/-- What stands at a path is made on the way to `p`, and removed at `p` and below it; everything else stays. -/
def Touches (p : List String) (d d' : Directory) : Prop :=
  ∀ q, d'.node? q = d.node? q ∨ q <+: p ∧ (d'.node? q).isSome ∨ p <+: q ∧ d'.node? q = none

namespace Touches

theorem refl (p : List String) (d : Directory) : Touches p d d := fun _ => .inl rfl

theorem trans (h : Touches p d d') (h' : Touches p d' d'') : Touches p d d'' := by
  intro q
  rcases h' q with hsame | hchanged
  · rw [hsame]
    exact h q
  · exact .inr hchanged

theorem ofSpread {ps : List (List String)} (h : Spread ps d d') (hps : ∀ q ∈ ps, q <+: p) : Touches p d d' := by
  intro q
  refine (h.node? q).imp_right fun hmade => .inl ⟨hps q hmade.1, ?_⟩
  rw [hmade.2.2]
  rfl

theorem insert (d : Directory) (hp : p ≠ []) (n : Node) :
    Touches p d { d with nodes := SortedMap.insert d.nodes p n } := by
  intro q
  rw [node?_insert d hp n q]
  split
  · next heq => exact .inr (.inl ⟨heq ▸ List.prefix_refl q, rfl⟩)
  · exact .inl rfl

theorem erase (d : Directory) (hp : p ≠ []) : Touches p d { d with nodes := SortedMap.erase d.nodes p } := by
  intro q
  rw [node?_erase d hp q]
  split
  · next heq => exact .inr (.inr ⟨heq ▸ List.prefix_refl q, rfl⟩)
  · exact .inl rfl

theorem eraseBelow (d : Directory) (p : List String) (itself : Bool) : Touches p d (d.eraseBelow p itself) := by
  intro q
  cases q with
  | nil => exact .inl rfl
  | cons s q =>
    rw [node?_of_ne_nil _ (List.cons_ne_nil s q), node?_of_ne_nil d (List.cons_ne_nil s q), Directory.eraseBelow,
      SortedMap.get?_filter d.nodes fun r => !(p.isPrefixOf r && (itself || r.length > p.length))]
    split
    · exact .inl rfl
    · next hgone =>
      simp only [Bool.not_eq_true, Bool.not_eq_false', Bool.and_eq_true] at hgone
      exact .inr (.inr ⟨List.isPrefixOf_iff_prefix.mp hgone.1, rfl⟩)

/-- Only paths on the way to `p` are new. -/
theorem isSome (h : Touches p d d') (hq : (d'.node? q).isSome) : (d.node? q).isSome ∨ q <+: p := by
  rcases h q with hsame | ⟨hleads, -⟩ | ⟨-, hnone⟩
  · exact .inl (hsame ▸ hq)
  · exact .inr hleads
  · rw [hnone] at hq
    cases hq

end Touches

theorem touches_makeAll (d : Directory) (p : List String) : Touches p d (d.makeAll p).2 :=
  .ofSpread (spread_makeAll d p) fun _ hq => (mem_leading.mp hq).2

theorem touches_makeAll_dropLast (d : Directory) (p : List String) : Touches p d (d.makeAll p.dropLast).2 :=
  .ofSpread (spread_makeAll d p.dropLast) fun _ hq => (mem_leading.mp hq).2.trans (List.dropLast_prefix p)

theorem touches_createBucket (d : Directory) (h : Path.parse text = .ok path) :
    Touches path.segments d (d.createBucket text).2 := by
  unfold createBucket
  simp only [h]
  split
  · split
    · exact .refl _ d
    · have hmake := touches_makeAll_dropLast d path.segments
      split
      · next heq => rwa [heq] at hmake
      · exact hmake
  · exact touches_makeAll d path.segments

theorem touches_stage (d : Directory) (h : Path.parse text = .ok path) :
    Touches path.segments d (d.stage text).2 := by
  have hmake := touches_makeAll_dropLast d path.segments
  unfold stage
  simp only [h]
  split
  · next heq => rwa [heq] at hmake
  · next heq =>
    rw [heq] at hmake
    split <;> exact hmake

/-- The root itself is in the way of a file. -/
theorem ne_nil_of_obstacle? (h : d.obstacle? path = none) : path.segments ≠ [] := by
  intro hnil
  have hroot : d.node? path.segments = some .directory := by rw [hnil]; rfl
  unfold obstacle? at h
  grind

theorem touches_put (d : Directory) (h : Path.parse text = .ok path) (bytes : Bytes) :
    Touches path.segments d (d.put text bytes).2 := by
  unfold put
  simp only [h]
  split
  · exact .refl _ d
  · next hfree => exact .insert d (ne_nil_of_obstacle? hfree) _

theorem touches_erase (d : Directory) (h : Path.parse text = .ok path) : Touches path.segments d (d.erase text).2 := by
  unfold erase
  simp only [h]
  split
  · exact .refl _ d
  · next hfile =>
    refine .erase d fun hnil => ?_
    have hroot : d.node? path.segments = some .directory := by rw [hnil]; rfl
    simp [find?, hroot] at hfile
  · exact .refl _ d

theorem touches_eraseBucket (d : Directory) (h : Path.parse text = .ok path) :
    Touches path.segments d (d.eraseBucket text).2 := by
  unfold eraseBucket
  simp only [h]
  split
  · exact .refl _ d
  · split
    · split <;> exact .eraseBelow d path.segments _
    · exact .refl _ d

/-- What is read is what stands at the place of the text. -/
theorem get_has_congr (h : Path.parse text = .ok path) (hnode : d'.node? path.segments = d.node? path.segments) :
    d'.get text = d.get text ∧ d'.has text = d.has text := by
  simp [Directory.get, Directory.has, h, find?, hnode, bind, Except.bind]

end Directory

/-! ## Operations on any text -/

namespace Storage

open Directory

/-- An operation on any text. -/
inductive Access where
  | createBucket (text : String)
  | write (text : String) (source : Source)
  | get (text : String)
  | has (text : String)
  | erase (text : String)
  | eraseBucket (text : String)

def Access.text : Access → String
  | createBucket text | write text _ | get text | has text | erase text | eraseBucket text => text

/-- Whether an operation is done, and what it leaves. -/
def access (s : Storage) : Access → Except StoreError Unit × Storage
  | .createBucket text => s.createBucket text
  | .write text source => let (r, s) := s.write text source; (r.map fun _ => (), s)
  | .get text => ((s.get text).map fun _ => (), s)
  | .has text => ((s.has text).map fun _ => (), s)
  | .erase text => s.erase text
  | .eraseBucket text => s.eraseBucket text

/-- A text that leads out of the root is refused, and nothing changes. -/
theorem access_refused (d : Directory) {a : Access} {e : StoreError} (h : Path.parse a.text = .error e) :
    (directory d).access a = (.error e, directory d) := by
  cases a with
  | createBucket text => simp [access, createBucket, Directory.createBucket, show Path.parse text = _ from h]
  | write text source =>
    simp [access, write, stage, Directory.stage, show Path.parse text = _ from h, Except.map]
  | get text => simp [access, get, Directory.get, show Path.parse text = _ from h, bind, Except.bind, Except.map]
  | has text => simp [access, has, Directory.has, show Path.parse text = _ from h, bind, Except.bind, Except.map]
  | erase text => simp [access, erase, Directory.erase, show Path.parse text = _ from h]
  | eraseBucket text => simp [access, eraseBucket, Directory.eraseBucket, show Path.parse text = _ from h]

/-- An operation stays on the way to its text, and below it. -/
theorem access_touches (d : Directory) {a : Access} {path : Path} (h : Path.parse a.text = .ok path) :
    ∃ r d', (directory d).access a = (r, directory d') ∧ Touches path.segments d d' := by
  cases a with
  | createBucket text => exact ⟨_, _, rfl, touches_createBucket d h⟩
  | write text source =>
    have hstage := touches_stage d h
    simp only [access, write, stage]
    split <;> rename_i staged heq <;> obtain ⟨hresult, hstaged⟩ := Prod.ext_iff.mp heq <;> dsimp only at hstaged <;>
      subst hstaged
    · exact ⟨_, _, rfl, hstage⟩
    · split
      · exact ⟨_, _, rfl, hstage⟩
      · exact ⟨_, _, rfl, hstage.trans (touches_put _ h _)⟩
  | get text | has text => exact ⟨_, d, rfl, .refl _ d⟩
  | erase text => exact ⟨_, _, rfl, touches_erase d h⟩
  | eraseBucket text => exact ⟨_, _, rfl, touches_eraseBucket d h⟩

/-- Make operations one after the other. -/
def accessAll (s : Storage) (as : List Access) : Storage := as.foldl (fun s a => (s.access a).2) s

/-- If all that stands below the root is named as entries are, this stays so. -/
theorem named_accessAll {d : Directory} (h : ∀ q, (d.node? q).isSome → ∀ s ∈ q, Ordinary s) (as : List Access) :
    ∃ d', (directory d).accessAll as = directory d' ∧ ∀ q, (d'.node? q).isSome → ∀ s ∈ q, Ordinary s := by
  induction as generalizing d with
  | nil => exact ⟨d, rfl, h⟩
  | cons a as ih =>
    rw [accessAll, List.foldl_cons]
    cases hparse : Path.parse a.text with
    | error e =>
      rw [access_refused d hparse]
      exact ih h
    | ok path =>
      obtain ⟨r, d', haccess, htouches⟩ := access_touches d hparse
      rw [haccess]
      refine ih fun q hq s hs => ?_
      rcases htouches.isSome hq with hbefore | hleads
      · exact h q hbefore s hs
      · exact (steps_of_parse hparse).2 s (hleads.subset hs)

/-! ## Keys -/

section Keys

variable {k l : Key} (here : List String) (base : String)

theorem place_path (hk : k.Valid) : place here (join base k.path) = place here base ++ k.segments :=
  place_join here base (parse_path hk)

/-- Different keys lead to different places. -/
theorem place_inj (hk : k.Valid) (hl : l.Valid)
    (h : place here (join base k.path) = place here (join base l.path)) : k = l := by
  rw [place_path here base hk, place_path here base hl] at h
  exact hk.segments_inj hl (List.append_cancel_left h)

/-- A key leads below its bucket. -/
theorem place_bucket_above (hk : k.Valid) : place here (join base k.bucket) <+: place here (join base k.path) ∧
    place here (join base k.bucket) ≠ place here (join base k.path) := by
  have hbucket : place here (join base k.bucket) = place here base ++ [k.bucket] :=
    place_join here base (parse_bucket hk.bucket)
  have hunder := hk.bucket_prefix_dropLast
  rw [hbucket, place_path here base hk]
  refine ⟨(List.prefix_append_right_inj _).mpr (hunder.trans (List.dropLast_prefix _)), fun heq => ?_⟩
  have hlength := hunder.length_le
  rw [← List.append_cancel_left heq] at hlength
  simp at hlength

/-- A key leads neither to the staged files nor above them. -/
theorem place_staging (hk : k.Valid) : ¬ place here (join base ".tmp") <+: place here (join base k.path) ∧
    ¬ place here (join base k.path) <+: place here (join base ".tmp") := by
  have hparse : Path.parse ".tmp" = .ok ⟨staging, .name⟩ := Path.parse_of_plain (by decide)
  have hstaging : place here (join base ".tmp") = place here base ++ staging := place_join here base hparse
  have hbucket := bucket_not_prefix_staging hk.bucket
  rw [hstaging, place_path here base hk, List.prefix_append_right_inj, List.prefix_append_right_inj]
  constructor
  · intro h
    rw [Key.segments_eq hk, staging, List.cons_prefix_cons] at h
    exact hbucket (h.1 ▸ List.prefix_refl _)
  · exact fun h => hbucket ((hk.bucket_prefix_dropLast.trans (List.dropLast_prefix _)).trans h)

end Keys

/-- Different valid keys have different paths, which lead to different places: below the directories of their buckets,
and neither to the staged files nor above or below them. Any text that is accepted adds names of entries to the root,
dots left out, so it leads into the root; an operation on it stays on the way from the root to that place and below
it, and a text that is not accepted changes nothing. So whatever is done, all that stands below the root is named as
entries are. -/
theorem confined (here : List String) (base : String) :
    (∀ k l : Key, k.Valid → l.Valid → k ≠ l → k.path ≠ l.path ∧
      ∃ p q, resolve base k.path = .ok p ∧ resolve base l.path = .ok q ∧ place here p ≠ place here q) ∧
    (∀ k : Key, k.Valid → ∃ p bucket, resolve base k.path = .ok p ∧ resolve base k.bucket = .ok bucket ∧
      place here bucket <+: place here p ∧ place here bucket ≠ place here p ∧
      ¬ place here (join base ".tmp") <+: place here p ∧ ¬ place here p <+: place here (join base ".tmp")) ∧
    (∀ (d : Directory) (a : Access), ∃ r d', (directory d).access a = (r, directory d') ∧
      match resolve base a.text with
      | .error e => r = .error e ∧ d' = d
      | .ok path => ∃ names, (∀ s ∈ names, Ordinary s) ∧ steps path = steps base ++ names.map .normal ∧
          place here path = place here base ++ names ∧ Touches names d d' ∧
          ∀ other : Directory, other.node? names = d.node? names →
            other.get a.text = d.get a.text ∧ other.has a.text = d.has a.text) ∧
    ∀ (longest : Option Nat) (as : List Access), ∃ d, (directory { longest }).accessAll as = directory d ∧
      ∀ q, (d.node? q).isSome → ∀ s ∈ q, Ordinary s := by
  have hresolve {text : String} {path : Path} (h : Path.parse text = .ok path) :
      resolve base text = .ok (join base text) := by
    rw [resolve, h]
    rfl
  refine ⟨fun k l hk hl hne => ?_, fun k hk => ?_, fun d a => ?_, fun longest as => named_accessAll ?_ as⟩
  · exact ⟨fun heq => hne (Key.path_inj hk hl heq), _, _, hresolve (parse_path hk), hresolve (parse_path hl),
      fun heq => hne (place_inj here base hk hl heq)⟩
  · obtain ⟨hunder, hbelow⟩ := place_bucket_above here base hk
    obtain ⟨hinside, habove⟩ := place_staging here base hk
    exact ⟨_, _, hresolve (parse_path hk), hresolve (parse_bucket hk.bucket), hunder, hbelow, hinside, habove⟩
  · cases hparse : Path.parse a.text with
    | error e =>
      rw [resolve, hparse]
      exact ⟨_, d, access_refused d hparse, rfl, rfl⟩
    | ok path =>
      obtain ⟨r, d', haccess, htouches⟩ := access_touches d hparse
      obtain ⟨hsteps, hnames⟩ := steps_of_parse hparse
      have hroot := ((parse_eq_ok_iff a.text).mp ⟨path, hparse⟩).1
      rw [hresolve hparse]
      refine ⟨r, d', haccess, path.segments, hnames, ?_, place_join here base hparse, htouches, fun other hnode => ?_⟩
      · rw [steps_join base hroot, hsteps]
      · exact get_has_congr hparse hnode
  · intro q hq s hs
    have hne : q ≠ [] := List.ne_nil_of_mem hs
    rw [node?_empty longest hne] at hq
    split at hq
    · next heq =>
      obtain rfl : s = ".tmp" := by simpa [heq, staging] using hs
      decide
    · cases hq

/-- Two objects of which one is named as if it were inside the other. -/
theorem confined_nested : Key.Valid ⟨"pics", "a"⟩ ∧ Key.Valid ⟨"pics", "a/b"⟩ ∧
    ∃ p q, resolve "/data//" "pics/a" = .ok p ∧ resolve "/data//" "pics/a/b" = .ok q ∧ place [] p ≠ place [] q := by
  have hk : Key.Valid ⟨"pics", "a"⟩ := by decide
  have hl : Key.Valid ⟨"pics", "a/b"⟩ := by decide
  exact ⟨hk, hl, ((confined [] "/data//").1 _ _ hk hl (by decide)).2⟩

end Storage

end Depot
