import Depot.Gateway.Route
import Depot.Proofs.Segment
import Depot.Proofs.Storage.Path

/-!
# Paths of routes

A route with valid names is read back from its path. The name in a path, still encoded or not, does not end with a
slash if it is valid.

## Main results

* `Route.ofPath?_path` — a route is read back from its path.
* `Route.leads_of_ofPath?` — what is read of a path, in its pieces.
* `Route.Named.getLast?_ne` — valid names do not end with a slash.
-/

namespace Depot

namespace Route

/-- Whether the names of a route can be those of a bucket and an object. -/
def Valid : Route → Prop
  | bucket b | objects b => isBucketName b = true
  | object b n | replica b n => (Key.mk b n).Valid
  | _ => True

/-- Whether the names of a route, or those that it encodes, can be those of a bucket and an object. -/
def Names (r : Route) : Prop := r.Valid ∨ ∃ s, r.decode = .ok s ∧ s.Valid

/-- The path that leads to a route. -/
def path : Route → String
  | health => "/health"
  | metrics => "/metrics"
  | buckets => "/buckets"
  | bucket b => "/buckets/" ++ b
  | objects b => "/objects/" ++ b
  | object b n => "/objects/" ++ (Key.mk b n).path
  | replica b n => "/replicator/objects/" ++ (Key.mk b n).path

/-! ## Pieces of paths -/

/-- The pieces of a path that begins with some parts. -/
theorem split_below {start : String} (parts : List String) (hparts : ∀ part ∈ parts, '/' ∉ part.toList)
    (hstart : start = "/".intercalate ("" :: parts) ++ "/") (s : String) :
    Text.split '/' (start ++ s) = "" :: parts ++ Text.split '/' s := by
  have hall : ∀ part ∈ "" :: parts, '/' ∉ part.toList := List.forall_mem_cons.mpr ⟨by decide, hparts⟩
  rw [hstart, Text.split_append_slash]
  exact congrArg (· ++ Text.split '/' s) (Text.split_intercalate hall (List.cons_ne_nil "" parts))

theorem split_buckets (s : String) : Text.split '/' ("/buckets/" ++ s) = "" :: "buckets" :: Text.split '/' s :=
  split_below ["buckets"] (by decide) (by decide) s

theorem split_objects (s : String) : Text.split '/' ("/objects/" ++ s) = "" :: "objects" :: Text.split '/' s :=
  split_below ["objects"] (by decide) (by decide) s

theorem split_replicator (s : String) :
    Text.split '/' ("/replicator/objects/" ++ s) = "" :: "replicator" :: "objects" :: Text.split '/' s :=
  split_below ["replicator", "objects"] (by decide) (by decide) s

/-- A route is read back from its path. -/
theorem ofPath?_path {r : Route} (h : r.Valid) : ofPath? r.path = some r := by
  have hobject {b n : String} (hkey : (Key.mk b n).Valid) :
      ∃ piece more, Text.split '/' (Key.mk b n).path = b :: piece :: more ∧ piece ≠ "" ∧
        "/".intercalate (piece :: more) = n := by
    obtain ⟨piece, more, hname⟩ := Key.exists_split_name ⟨b, n⟩
    have hsegments := Key.segments_eq hkey
    rw [hname] at hsegments
    refine ⟨piece, more, hsegments, (Directory.plain_segments hkey ?_).1, ?_⟩
    · simp [hsegments]
    · exact hname ▸ Text.intercalate_split '/' n
  cases r with
  | health | metrics | buckets => decide
  | bucket b =>
    show ofPath? ("/buckets/" ++ b) = _
    rw [ofPath?, split_buckets, Text.split_of_not_mem (slash_not_mem h)]
    exact if_neg (Directory.plain_bucket h).1
  | objects b =>
    show ofPath? ("/objects/" ++ b) = _
    rw [ofPath?, split_objects, Text.split_of_not_mem (slash_not_mem h)]
    exact if_neg (Directory.plain_bucket h).1
  | object b n =>
    obtain ⟨piece, more, hsplit, hpiece, hname⟩ := hobject h
    have hb : b ≠ "" := (Directory.plain_bucket h.bucket).1
    show ofPath? ("/objects/" ++ (Key.mk b n).path) = _
    rw [ofPath?, split_objects, hsplit]
    simp [hb, hpiece, hname]
  | replica b n =>
    obtain ⟨piece, more, hsplit, hpiece, hname⟩ := hobject h
    have hb : b ≠ "" := (Directory.plain_bucket h.bucket).1
    show ofPath? ("/replicator/objects/" ++ (Key.mk b n).path) = _
    rw [ofPath?, split_replicator, hsplit]
    simp [hb, hpiece, hname]

/-- What the pieces of a path lead to, the first one left out. -/
inductive Leads : List String → Route → Prop
  | health : Leads ["health"] .health
  | metrics : Leads ["metrics"] .metrics
  | buckets : Leads ["buckets"] .buckets
  | bucket {b : String} : b ≠ "" → Leads ["buckets", b] (.bucket b)
  | objects {b : String} : b ≠ "" → Leads ["objects", b] (.objects b)
  | object {b part : String} {more : List String} : part :: more ≠ [""] →
    Leads ("objects" :: b :: part :: more) (.object b ("/".intercalate (part :: more)))
  | replica {b part : String} {more : List String} : part :: more ≠ [""] →
    Leads ("replicator" :: "objects" :: b :: part :: more) (.replica b ("/".intercalate (part :: more)))

/-- What is read of a path, in its pieces. -/
theorem leads_of_ofPath? {path : String} {r : Route} (h : ofPath? path = some r) :
    ∃ parts, Text.split '/' path = "" :: parts ∧ Leads parts r := by
  rw [ofPath?] at h
  split at h
  · next hpath =>
    cases h
    exact ⟨_, hpath, .health⟩
  · next hpath =>
    cases h
    exact ⟨_, hpath, .metrics⟩
  · next hpath =>
    cases h
    exact ⟨_, hpath, .buckets⟩
  · next b hpath =>
    obtain ⟨hb, heq⟩ := Option.ite_none_left_eq_some.mp h
    cases heq
    exact ⟨_, hpath, .bucket hb⟩
  · next b hpath =>
    obtain ⟨hb, heq⟩ := Option.ite_none_left_eq_some.mp h
    cases heq
    exact ⟨_, hpath, .objects hb⟩
  · next b name hshort hpath =>
    obtain ⟨hnot, heq⟩ := Option.ite_none_left_eq_some.mp h
    cases heq
    cases name with
    | nil => exact (hshort rfl).elim
    | cons part more => exact ⟨_, hpath, .object fun hname => hnot (.inr hname)⟩
  · next b name hpath =>
    obtain ⟨hnot, heq⟩ := Option.ite_none_left_eq_some.mp h
    cases heq
    cases name with
    | nil => exact (hnot (.inr (.inl rfl))).elim
    | cons part more => exact ⟨_, hpath, .replica fun hname => hnot (.inr (.inr hname))⟩
  · cases h

/-! ## Names in paths -/

/-- Whether a name in a path, or what it encodes, can be that of an object. -/
def Named (n : String) : Prop := isObjectName n = true ∨ ∃ m, Segment.decode? n = some m ∧ isObjectName m = true

theorem decodePart_eq_ok {part value s : String} (h : decodePart part value = .ok s) :
    Segment.decode? value = some s := by
  rw [decodePart] at h
  split at h
  · next heq => rw [heq, Except.ok.inj h]
  · cases h

/-- What is decoded of a bucket and a name together. -/
theorem exists_of_decodeParts {make : String → String → Route} {b n : String} {r : Route}
    (h : (do return make (← decodePart "bucket" b) (← decodePart "name" n)) = .ok r) :
    ∃ b' n', Segment.decode? n = some n' ∧ r = make b' n' := by
  cases hb : decodePart "bucket" b with
  | error e =>
    rw [hb] at h
    cases h
  | ok b' =>
    cases hn : decodePart "name" n with
    | error e =>
      rw [hb, hn] at h
      cases h
    | ok n' =>
      rw [hb, hn] at h
      exact ⟨b', n', decodePart_eq_ok hn, (Except.ok.inj h).symm⟩

theorem Names.object {b n : String} (h : (Route.object b n).Names) : Named n := by
  rcases h with hvalid | ⟨s, hdecode, hvalid⟩
  · exact .inl hvalid.name
  · obtain ⟨b', n', hn, rfl⟩ := exists_of_decodeParts hdecode
    exact .inr ⟨n', hn, hvalid.name⟩

theorem Names.replica {b n : String} (h : (Route.replica b n).Names) : Named n := by
  rcases h with hvalid | ⟨s, hdecode, hvalid⟩
  · exact .inl hvalid.name
  · obtain ⟨b', n', hn, rfl⟩ := exists_of_decodeParts hdecode
    exact .inr ⟨n', hn, hvalid.name⟩

/-- A name in a path does not end with a slash, so its last piece is not empty. -/
theorem Named.getLast?_ne {pieces : List String} (h : Named ("/".intercalate pieces)) (hne : pieces ≠ [""]) :
    pieces.getLast? ≠ some "" := by
  intro hlast
  obtain ⟨front, hfront⟩ := List.getLast?_eq_some_iff.mp hlast
  have hnil : front ≠ [] := by
    rintro rfl
    exact hne hfront
  rw [hfront, String.intercalate_append_of_ne_nil hnil (List.cons_ne_nil _ _), String.intercalate_singleton,
    String.append_empty] at h
  rcases h with h | ⟨m, hm, h⟩
  · rw [not_isObjectName_slash] at h
    cases h
  · obtain ⟨u, rfl⟩ := Segment.exists_of_decode?_slash hm
    rw [not_isObjectName_slash] at h
    cases h

/-- The pieces of a path with valid names neither begin nor end with an empty one. -/
theorem Leads.ends_ne {parts : List String} {r : Route} (h : Leads parts r) (hr : r.Names) :
    parts.head? ≠ some "" ∧ parts.getLast? ≠ some "" ∧ parts ≠ [] := by
  cases h with
  | health | metrics | buckets => decide
  | bucket hb | objects hb => simpa using hb
  | object hname => simpa using hr.object.getLast?_ne hname
  | replica hname => simpa using hr.replica.getLast?_ne hname

end Route

end Depot
