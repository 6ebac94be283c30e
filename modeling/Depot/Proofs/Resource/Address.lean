import Depot.Proofs.Gateway.Route
import Depot.Resource.Remote

/-!
# Addresses of remote objects

The address at which the peer site is asked for an object ends in the segments of its key, each of them written.
The peer reads them back, so it is asked for that object and no other.

## Main results

* `Key.split_address` — the segments of an address.
* `Route.ofPath?_address` — what the address leads to.
* `RemoteResource.objectUrl_addresses` — the address of an object tells its key.
-/

namespace Depot

/-! ## The path to an object -/

namespace Key

variable {k : Key}

/-- The path to an object on its site, below the path to all objects. -/
def address (k : Key) : String := "/".intercalate ((k.bucket :: Text.split '/' k.name).map Segment.encode)

theorem address_eq (k : Key) : k.address =
    Segment.encode k.bucket ++ "/" ++ "/".intercalate ((Text.split '/' k.name).map Segment.encode) := by
  obtain ⟨piece, more, hsplit⟩ := exists_split_name k
  rw [address, hsplit, List.map_cons, List.map_cons, String.intercalate_cons_cons]

/-- The segments of an address are those of the key, written. -/
theorem split_address (h : k.Valid) : Text.split '/' k.address = k.segments.map Segment.encode := by
  rw [segments_eq h]
  exact Text.split_intercalate (List.forall_mem_map.mpr fun s _ => (Segment.isWritten_encode s).slash_not_mem)
    (List.cons_ne_nil _ _)

end Key

/-- The address leads to the object. -/
theorem Route.ofPath?_address {k : Key} (h : k.Valid) :
    ∃ r, Route.ofPath? ("/objects/" ++ k.address) = some r ∧ r.decode = .ok (.object k.bucket k.name) := by
  obtain ⟨piece, more, hname⟩ := Key.exists_split_name k
  have hbucket : Segment.encode k.bucket ≠ "" := Segment.encode_ne (by decide) (Directory.plain_bucket h.bucket).1
  have hpiece : Segment.encode piece ≠ "" := by
    refine Segment.encode_ne (by decide) (Directory.plain_segments h ?_).1
    simp [Key.segments_eq h, hname]
  have hsplit : Text.split '/' ("/objects/" ++ k.address) =
      "" :: "objects" :: Segment.encode k.bucket :: (Text.split '/' k.name).map Segment.encode := by
    rw [Route.split_objects, Key.split_address h, Key.segments_eq h, List.map_cons]
  refine ⟨.object (Segment.encode k.bucket) ("/".intercalate ((Text.split '/' k.name).map Segment.encode)), ?_, ?_⟩
  · rw [Route.ofPath?, hsplit, hname]
    simp [hbucket, hpiece]
  · have hdecoded := Segment.decode?_intercalate (Text.split '/' k.name)
    rw [show "/".intercalate (Text.split '/' k.name) = k.name from Text.intercalate_split '/' k.name] at hdecoded
    simp only [Route.decode, Route.decodePart, Segment.decode?_encode, hdecoded]
    rfl

namespace RemoteResource

variable {k : Key}

/-- The address of a site without the slashes at its end. -/
theorem exists_site (peerUrl : String) :
    ∃ site : String, (∃ n, peerUrl.toList = site.toList ++ List.replicate n '/') ∧ site.toList.getLast? ≠ some '/' ∧
      ∀ k : Key, objectUrl peerUrl k = site ++ "/objects/" ++ k.address := by
  refine ⟨String.ofList (peerUrl.toList.rdropWhile (· == '/')), ?_, ?_, fun k => ?_⟩
  · obtain ⟨n, hn⟩ := Text.rdropWhile_append_replicate '/' peerUrl.toList
    exact ⟨n, by rw [String.toList_ofList, hn]⟩
  · rw [String.toList_ofList]
    exact Text.getLast?_rdropWhile_ne '/' _
  · rw [Key.address_eq, ← String.append_assoc, ← String.append_assoc]
    rfl

/-- The address of an object is that of its site, without slashes at its end, and a path of written segments, none of
which is empty or relative. They are read back as the segments of the key, the peer is asked for that object, and
other keys have other addresses. -/
theorem objectUrl_addresses (hk : k.Valid) (peerUrl : String) :
    ∃ site path : String, (∃ n, peerUrl.toList = site.toList ++ List.replicate n '/') ∧
      site.toList.getLast? ≠ some '/' ∧ objectUrl peerUrl k = site ++ "/objects/" ++ path ∧
      (∀ s ∈ Text.split '/' path, Segment.IsWritten s.toList ∧ s ≠ "" ∧ s ≠ "." ∧ s ≠ "..") ∧
      (Text.split '/' path).mapM Segment.decode? = some (k.bucket :: Text.split '/' k.name) ∧
      (∃ r, Route.ofPath? ("/objects/" ++ path) = some r ∧ r.decode = .ok (.object k.bucket k.name)) ∧
      ∀ l : Key, l.Valid → objectUrl peerUrl l = objectUrl peerUrl k → l = k := by
  obtain ⟨site, hslashes, hlast, hurl⟩ := exists_site peerUrl
  refine ⟨site, k.address, hslashes, hlast, hurl k, fun s hs => ?_, ?_, Route.ofPath?_address hk, fun l hl h => ?_⟩
  · rw [Key.split_address hk] at hs
    obtain ⟨t, ht, rfl⟩ := List.mem_map.mp hs
    obtain ⟨hempty, hdot, hdots⟩ := Directory.plain_segments hk ht
    exact ⟨Segment.isWritten_encode t, Segment.encode_ne (by decide) hempty, Segment.encode_ne (by decide) hdot,
      Segment.encode_ne (by decide) hdots⟩
  · rw [Key.split_address hk, Segment.mapM_decode?, Key.segments_eq hk]
  · rw [hurl, hurl, String.append_right_inj] at h
    have hsegments := congrArg (fun path => (Text.split '/' path).mapM Segment.decode?) h
    simp only [Key.split_address hl, Key.split_address hk, Segment.mapM_decode?, Option.some.injEq] at hsegments
    exact hl.segments_inj hk hsegments

/-- A name with a triple in it is none of the name that the triple would be read as. -/
theorem objectUrl_addresses_triple :
    let k : Key := ⟨"photos", "2024/a%2Fé"⟩
    k.Valid ∧ objectUrl "http://peer//" k = "http://peer/objects/photos/2024/a%252F%C3%A9" ∧
      ∃ site path : String, objectUrl "http://peer//" k = site ++ "/objects/" ++ path ∧
        (Text.split '/' path).mapM Segment.decode? = some ["photos", "2024", "a%2Fé"] ∧
        objectUrl "http://peer//" ⟨"photos", "2024/a/é"⟩ ≠ objectUrl "http://peer//" k := by
  intro k
  have hk : k.Valid := by decide
  have hother : (⟨"photos", "2024/a/é"⟩ : Key).Valid := by decide
  have hname : Text.split '/' k.name = ["2024", "a%2Fé"] := by decide
  have hurl : objectUrl "http://peer//" k = "http://peer/objects/photos/2024/a%252F%C3%A9" := by
    simp only [objectUrl, hname, List.map_cons, List.map_nil, Segment.encode, Bytes.ofText_eq_flatMap]
    decide
  obtain ⟨site, path, -, -, hparts, -, hread, -, hinj⟩ := objectUrl_addresses hk "http://peer//"
  exact ⟨hk, hurl, site, path, hparts, hname ▸ hread, fun h => absurd (hinj _ hother h) (by decide)⟩

end RemoteResource

end Depot
