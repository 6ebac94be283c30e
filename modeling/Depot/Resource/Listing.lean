import Depot.Listing
import Depot.Resource.Object

/-!
# Listings

The objects of a ready bucket that meet the criteria of a request, as a download.
-/

namespace Depot.ListingResource

/-- What is listed. -/
structure Query where
  bucket : String
  filter : Filter

/-- The hooks of listings. They keep no state, and take no uploads. -/
def hooks : Hooks Unit Query Unit Unit where
  wantsDigest _ := return false
  accept _ := Action.refuse Hooks.uploadUnsupported
  deliver _ s := s
  answer _ _ _ := Action.refuse Hooks.uploadUnsupported
  answerFields _ _ _ _ := return []
  answerJson _ := .null
  readable _ _ := return true
  payload q := do
    if !(← ObjectResource.hasBucket q.bucket) then
      Action.refuse (ObjectResource.bucketMissing q.bucket)
    return { outlet := .bare (Listing.source (← Action.call (.listObjects q.bucket q.filter))) }
  payloadFields q := return [(Header.contentType, ndjsonType), (Header.bucket, q.bucket)]
  errorFields q _ := return [(Header.bucket, q.bucket)]
  release := return ()

end Depot.ListingResource
