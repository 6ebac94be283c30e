import Depot.Gateway.Metrics
import Depot.Proofs.Gateway.Route

/-!
# Kinds of paths

Paths are counted under the kind of what they lead to, of which there are nine. Slashes around a path are no part of
what it leads to, so a path to the health check or to the counters can be written in many ways, and every way but
one is counted under itself.

## Main definitions

* `Metrics.kinds` — the nine kinds.
* `Metrics.IsLoose` — a path to the health check or the counters that is not written as usual.

## Main results

* `Metrics.pathKind_of_names` — a path with valid names is counted under the kind of its route.
* `Metrics.pathKind_mem_kinds_iff` — which paths are counted under one of the kinds.
-/

namespace Depot

/-- The kind under which requests of a route are counted. -/
def Route.kind : Route → String
  | health => "/health"
  | metrics => "/metrics"
  | buckets => "/buckets"
  | bucket _ => "/buckets/\x7bbucket\x7d"
  | objects _ => "/objects/\x7bbucket\x7d"
  | object _ _ => "/objects/\x7bbucket\x7d/\x7bname\x7d"
  | replica _ _ => "/replicator/objects/\x7bbucket\x7d/\x7bname\x7d"

namespace Metrics

variable {path : String}

/-- The kinds under which paths are counted: the start, the routes, and everything else. -/
def kinds : List String :=
  ["/", "/health", "/metrics", "/buckets", "/buckets/\x7bbucket\x7d", "/objects/\x7bbucket\x7d",
    "/objects/\x7bbucket\x7d/\x7bname\x7d", "/replicator/objects/\x7bbucket\x7d/\x7bname\x7d", "/\x7bother\x7d"]

/-- Whether a path leads to the health check or to the counters, but with other slashes around it than the one in
front. -/
def IsLoose (path : String) : Prop :=
  ∃ name ∈ ["health", "metrics"], ∃ i j, (i ≠ 1 ∨ j ≠ 0) ∧
    path.toList = List.replicate i '/' ++ name.toList ++ List.replicate j '/'

/-! ## Pieces -/

/-- A path without the slashes around it. -/
def trimmed (path : String) : String := String.ofList (Text.trimList (· == '/') path.toList)

/-- The pieces of a path make it up. -/
theorem intercalate_pieces (s : String) : "/".intercalate (pieces 4 s) = s := by
  have hall : "/".intercalate (Text.split '/' s) = s := Text.intercalate_split '/' s
  rw [pieces]
  split
  · exact hall
  · next hlong =>
    have hfront : (Text.split '/' s).take 3 ≠ [] := by
      intro hnil
      have hlength := congrArg List.length hnil
      rw [List.length_take, List.length_nil] at hlength
      omega
    have hback : (Text.split '/' s).drop 3 ≠ [] := fun hnil => by
      have hlength := congrArg List.length hnil
      rw [List.length_drop, List.length_nil] at hlength
      omega
    rw [String.intercalate_append_of_ne_nil hfront (List.cons_ne_nil _ _), String.intercalate_singleton,
      ← String.intercalate_append_of_ne_nil hfront hback, List.take_append_drop, hall]

theorem eq_of_pieces {s t : String} (h : pieces 4 s = [t]) : s = t := by
  rw [← intercalate_pieces s, h, String.intercalate_singleton]

theorem ends_of_mem : ∀ name ∈ ["health", "metrics"],
    name.toList.head? ≠ some '/' ∧ name.toList.getLast? ≠ some '/' ∧ name.toList ≠ [] := by
  decide

/-- What is left of a path when it is one of two names. -/
theorem trimmed_eq_iff {name : String} (hname : name ∈ ["health", "metrics"]) : trimmed path = name ↔
    ∃ i j, path.toList = List.replicate i '/' ++ name.toList ++ List.replicate j '/' := by
  obtain ⟨hfirst, hlast, hne⟩ := ends_of_mem name hname
  constructor
  · rintro rfl
    obtain ⟨i, j, hpath⟩ := Text.replicate_append_trimList '/' path.toList
    exact ⟨i, j, by rw [trimmed, String.toList_ofList, hpath]⟩
  · rintro ⟨i, j, hpath⟩
    rw [trimmed, hpath, Text.trimList_replicate hfirst hlast hne, String.ofList_toList]

theorem isLoose_iff : IsLoose path ↔ trimmed path ∈ ["health", "metrics"] ∧ path ≠ "/" ++ trimmed path := by
  constructor
  · rintro ⟨name, hname, i, j, hij, hpath⟩
    have htrimmed : trimmed path = name := (trimmed_eq_iff hname).mpr ⟨i, j, hpath⟩
    refine ⟨htrimmed ▸ hname, fun husual => ?_⟩
    have hlists : List.replicate i '/' ++ name.toList ++ List.replicate j '/' = '/' :: name.toList := by
      rw [← hpath, husual, htrimmed]
      simp
    have hlength := congrArg List.length hlists
    simp only [List.length_append, List.length_replicate, List.length_cons] at hlength
    obtain ⟨rfl, rfl⟩ : i = 0 ∧ j = 1 := by omega
    obtain ⟨hfirst, -, hne⟩ := ends_of_mem name hname
    have hhead := congrArg List.head? hlists
    rw [List.replicate_zero, List.nil_append, List.head?_append_of_ne_nil _ hne] at hhead
    exact hfirst hhead
  · rintro ⟨hname, husual⟩
    obtain ⟨i, j, hpath⟩ := (trimmed_eq_iff hname).mp rfl
    refine ⟨trimmed path, hname, i, j, ?_, hpath⟩
    by_contra hij
    obtain ⟨rfl, rfl⟩ : i = 1 ∧ j = 0 := by omega
    exact husual (String.toList_inj.mp (by rw [hpath]; simp))

/-- A path to the health check or the counters is counted under itself. -/
theorem pathKind_of_trimmed (h : trimmed path ∈ ["health", "metrics"]) : pathKind path = path := by
  rw [pathKind, ← trimmed]
  rcases List.mem_cons.mp h with hhealth | h
  · rw [hhealth]
    rfl
  · rw [List.mem_singleton.mp h]
    rfl

/-- Every other path is counted under one of the kinds. -/
theorem pathKind_mem_kinds (h : trimmed path ∉ ["health", "metrics"]) : pathKind path ∈ kinds := by
  rw [pathKind, ← trimmed]
  split
  · decide
  · next heq => exact absurd (eq_of_pieces heq ▸ List.mem_cons_self) h
  · next heq => exact absurd (eq_of_pieces heq ▸ List.mem_cons_of_mem _ List.mem_cons_self) h
  all_goals decide

/-- Which paths are counted under one of the kinds. -/
theorem pathKind_mem_kinds_iff (path : String) : pathKind path ∈ kinds ↔ ¬ IsLoose path := by
  have husual : ∀ kind ∈ kinds, trimmed kind ∈ ["health", "metrics"] → kind = "/" ++ trimmed kind := by decide
  rw [isLoose_iff]
  by_cases h : trimmed path ∈ ["health", "metrics"]
  · rw [pathKind_of_trimmed h]
    constructor
    · rintro hkind ⟨-, hne⟩
      exact hne (husual path hkind h)
    · intro hnot
      have heq : path = "/" ++ trimmed path := by
        by_contra hne
        exact hnot ⟨h, hne⟩
      have hkinds : ∀ name ∈ ["health", "metrics"], "/" ++ name ∈ kinds := by decide
      exact heq ▸ hkinds _ h
  · exact iff_of_true (pathKind_mem_kinds h) fun hloose => h hloose.1

/-! ## Routes -/

/-- A text whose first and last pieces are not empty has no slashes around it. -/
theorem trimmed_of_split {s : String} (hfirst : (Text.split '/' s).head? ≠ some "")
    (hlast : (Text.split '/' s).getLast? ≠ some "") : trimmed ("/" ++ s) = s := by
  have hhead : s.toList.head? ≠ some '/' := by
    intro hslash
    obtain ⟨rest, hrest⟩ := List.head?_eq_some_iff.mp hslash
    obtain rfl : s = "" ++ "/" ++ String.ofList rest := String.toList_inj.mp (by simp [hrest])
    rw [Text.split_append_slash] at hfirst
    exact hfirst rfl
  have hend : s.toList.getLast? ≠ some '/' := by
    intro hslash
    obtain ⟨front, hfront⟩ := List.getLast?_eq_some_iff.mp hslash
    obtain rfl : s = String.ofList front ++ "/" ++ "" := String.toList_inj.mp (by simp [hfront])
    rw [Text.split_append_slash] at hlast
    exact hlast List.getLast?_concat
  have hne : s.toList ≠ [] := by
    intro hnil
    obtain rfl := String.toList_eq_nil_iff.mp hnil
    exact hfirst rfl
  have hpath : ("/" ++ s).toList = List.replicate 1 '/' ++ s.toList ++ List.replicate 0 '/' := by simp
  rw [trimmed, hpath, Text.trimList_replicate hhead hend hne, String.ofList_toList]

/-- A path is told apart into what follows the slash in front of it. -/
theorem split_trimmed {parts : List String} (hpath : Text.split '/' path = "" :: parts)
    (hfirst : parts.head? ≠ some "") (hlast : parts.getLast? ≠ some "") (hne : parts ≠ []) :
    Text.split '/' (trimmed path) = parts := by
  have hparts : Text.split '/' ("/".intercalate parts) = parts := by
    refine Text.split_intercalate (fun s hs => ?_) hne
    have hmem : s ∈ Text.split '/' path := hpath ▸ List.mem_cons_of_mem _ hs
    exact Text.sep_not_mem_of_mem_split hmem
  have hslash : path = "/" ++ "/".intercalate parts := by
    have hsame : Text.split '/' path = Text.split '/' ("" ++ "/" ++ "/".intercalate parts) := by
      rw [Text.split_append_slash, hparts, hpath]
      rfl
    simpa using Text.split_inj hsame
  rw [hslash, trimmed_of_split (hparts.symm ▸ hfirst) (hparts.symm ▸ hlast), hparts]

/-- The first three pieces are told apart, and what follows them, if there is anything. -/
theorem exists_pieces {s a b c : String} {more : List String} (h : Text.split '/' s = a :: b :: c :: more) :
    ∃ rest, pieces 4 s = a :: b :: c :: rest ∧ (more ≠ [] → rest ≠ []) := by
  rw [pieces, h]
  split
  · exact ⟨more, rfl, id⟩
  · exact ⟨["/".intercalate more], rfl, fun _ => List.cons_ne_nil _ _⟩

/-- A path is counted under the kind of what its pieces lead to. -/
theorem pathKind_of_leads {parts : List String} {r : Route} (h : Route.Leads parts r)
    (hsplit : Text.split '/' (trimmed path) = parts) (husual : Text.split '/' path = "" :: parts) :
    pathKind path = r.kind := by
  rw [pathKind, ← trimmed]
  cases h with
  | health =>
    have hpath : Text.split '/' path = Text.split '/' "/health" := husual
    rw [pieces, hsplit]
    exact Text.split_inj hpath
  | metrics =>
    have hpath : Text.split '/' path = Text.split '/' "/metrics" := husual
    rw [pieces, hsplit]
    exact Text.split_inj hpath
  | buckets | bucket | objects =>
    rw [pieces, hsplit]
    rfl
  | object =>
    obtain ⟨rest, hpieces, -⟩ := exists_pieces hsplit
    rw [hpieces]
    rfl
  | replica =>
    obtain ⟨rest, hpieces, hrest⟩ := exists_pieces hsplit
    obtain ⟨part, rest, rfl⟩ := List.exists_cons_of_ne_nil (hrest (List.cons_ne_nil _ _))
    rw [hpieces]
    rfl

/-- A path with valid names is counted under the kind of its route. -/
theorem pathKind_of_names {r : Route} (h : Route.ofPath? path = some r) (hr : r.Names) : pathKind path = r.kind := by
  obtain ⟨parts, hpath, hleads⟩ := Route.leads_of_ofPath? h
  obtain ⟨hfirst, hlast, hne⟩ := hleads.ends_ne hr
  exact pathKind_of_leads hleads (split_trimmed hpath hfirst hlast hne) hpath

/-- A path is counted under one of nine kinds unless it leads to the health check or to the counters with other
slashes around it than the one in front; then it is counted under itself. A path with valid names, as they are or
encoded, is counted under the kind of its route. -/
theorem pathKind_bounded (path : String) :
    (pathKind path ∈ kinds ↔ ¬ IsLoose path) ∧ (IsLoose path → pathKind path = path) ∧
      (∀ r, Route.ofPath? path = some r → r.Names → pathKind path = r.kind) ∧
      ∀ r : Route, r.Valid → pathKind r.path = r.kind :=
  ⟨pathKind_mem_kinds_iff path, fun h => pathKind_of_trimmed (isLoose_iff.mp h).1, fun _ h => pathKind_of_names h,
    fun _ h => pathKind_of_names (Route.ofPath?_path h) (.inl h)⟩

/-- An encoded slash in a name leaves a path with its route; a slash behind the path to the health check does not. -/
theorem pathKind_bounded_encoded :
    (Route.object "photos" "2024%2Fcat").Names ∧
      pathKind "/objects/photos/2024%2Fcat" = "/objects/\x7bbucket\x7d/\x7bname\x7d" ∧
      IsLoose "/health/" ∧ pathKind "/health/" = "/health/" ∧ pathKind "/health/" ∉ kinds := by
  have hpath : Route.ofPath? "/objects/photos/2024%2Fcat" = some (.object "photos" "2024%2Fcat") := by decide
  have hname : Segment.decode? "2024%2Fcat" = some "2024/cat" := by
    have hencode : Segment.encode "2024/cat" = "2024%2Fcat" := by
      rw [Segment.encode, Bytes.ofText_eq_flatMap]
      decide
    rw [← hencode, Segment.decode?_encode]
  have hbucket : Segment.decode? "photos" = some "photos" := Segment.decode?_of_not_mem (by decide)
  have hnames : (Route.object "photos" "2024%2Fcat").Names := by
    refine .inr ⟨.object "photos" "2024/cat", ?_, (by decide : (Key.mk "photos" "2024/cat").Valid)⟩
    rw [Route.decode, Route.decodePart, hbucket, Route.decodePart, hname]
    rfl
  have hloose : IsLoose "/health/" := ⟨"health", by decide, 1, 1, by decide, by decide⟩
  obtain ⟨hkinds, hself, -⟩ := pathKind_bounded "/health/"
  exact ⟨hnames, (pathKind_bounded _).2.2.1 _ hpath hnames, hloose, hself hloose, fun h => hkinds.mp h hloose⟩

/-- A slash behind the path to the health check makes a label of its own. -/
theorem pathKind_health_slash : pathKind "/health/" = "/health/" ∧ "/health/" ∉ kinds := by
  decide

end Metrics

end Depot
