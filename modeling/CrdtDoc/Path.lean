/-
  This file defines where documents are kept, and the paths
  of names that lead into them.

  Key definitions include:
    * `Location`
    * `Location.IsComplete`
    * `Path`
    * `Path.child`
-/

namespace CrdtDoc

------------------------------------------------------------
-- Locations
------------------------------------------------------------

/- The place of a document in the store. -/
structure Location where
  bucket : String
  bucketType : String
  key : String
deriving DecidableEq, Repr, Inhabited

namespace Location

/- No part of a complete location is missing. -/
def IsComplete
    (location : Location) : Prop :=
  location.bucket ≠ "" ∧ location.bucketType ≠ "" ∧
    location.key ≠ ""

instance
    (location : Location) :
    Decidable location.IsComplete := by
  unfold IsComplete
  infer_instance

/- The location with another key. -/
def withKey
    (location : Location)
    (key : String) : Location :=
  { location with key }

/-
  Is a location before another one, in the order of types,
  then of buckets, and then of keys?
-/
def less
    (a b : Location) : Bool :=
  if a.bucketType ≠ b.bucketType then
    decide (a.bucketType < b.bucketType)
  else if a.bucket ≠ b.bucket then decide (a.bucket < b.bucket)
  else decide (a.key < b.key)

/- The location as shown: type, bucket and key. -/
def text
    (location : Location) : String :=
  location.bucketType ++ "/" ++ location.bucket ++ "/" ++
    location.key

end Location

------------------------------------------------------------
-- Paths
------------------------------------------------------------

/- A map within a document: the names that lead to it. -/
structure Path where
  location : Location
  segments : List String
deriving DecidableEq, Repr, Inhabited

namespace Path

/- The outermost map of a document. -/
def root
    (location : Location) : Path :=
  ⟨location, []⟩

/- Is this the outermost map? -/
def isRoot
    (path : Path) : Bool :=
  path.segments.isEmpty

/- The map of a name within another one. -/
def child
    (path : Path)
    (name : String) : Path :=
  { path with segments := path.segments ++ [name] }

/- The path as shown: its location and then its names. -/
def text
    (path : Path) : String :=
  path.segments.foldl (fun shown name => shown ++ "/" ++ name)
    path.location.text

end Path

end CrdtDoc
