import CrdtDoc.Json.Reader
import CrdtDoc.Path

/-
  This file defines the JSON form of locations and paths.

  Key definitions include:
    * `Json.ofLocation`
    * `Json.Reader.location`
    * `Json.ofPath`
    * `Json.Reader.path`
-/

namespace CrdtDoc

namespace Json

/- The value of a location. -/
def ofLocation
    (location : Location) : Json :=
  ofFields
    [("bucket", ofText location.bucket),
      ("bucket_type", ofText location.bucketType),
      ("key", ofText location.key)]

/- The value of a path. -/
def ofPath
    (path : Path) : Json :=
  ofFields
    [("location", ofLocation path.location),
      ("segments", .list (path.segments.map ofText))]

namespace Reader

/- A location, which has all its parts. -/
def location : Reader Location :=
  record ["bucket", "bucket_type", "key"] fun depth parts => do
    let bucket ← required text depth parts "bucket"
    let bucketType ← required text depth parts "bucket_type"
    let key ← required text depth parts "key"
    return ⟨bucket, bucketType, key⟩

/- A path, which has both its parts. -/
def path : Reader Path :=
  record ["location", "segments"] fun depth parts => do
    let location ← required location depth parts "location"
    let segments ← required (list text) depth parts "segments"
    return ⟨location, segments⟩

end Reader

end Json

end CrdtDoc
