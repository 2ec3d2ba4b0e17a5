import CrdtDoc.Json.Map
import CrdtDoc.Json.Path
import CrdtDoc.Store

/-
  This file defines the JSON form of a store: the list of
  its maps, each with its location and its version.

  Key definitions include:
    * `Store.toJson`
    * `Store.ofJson`
-/

namespace CrdtDoc

namespace Json

/- The value of a stored map. -/
def ofStoredMap
    (stored : StoredMap) : Json :=
  ofFields
    [("map", ofMap stored.map),
      ("version", ofInteger stored.version)]

/- The value of stored maps with their locations. -/
def ofObjects
    (objects : List (Location × StoredMap)) : Json :=
  ofFields
    [("objects", .list (objects.map fun (location, stored) =>
      .list [ofLocation location, ofStoredMap stored]))]

namespace Reader

/- A stored map, which has both its parts. -/
def storedMap : Reader StoredMap :=
  record ["map", "version"] fun depth parts => do
    let map ← required map depth parts "map"
    let version ← required (integer .u64) depth parts "version"
    return ⟨map, version⟩

/- Stored maps with their locations. -/
def objects : Reader (List (Location × StoredMap)) :=
  record ["objects"] fun depth parts =>
    required (list (pair location storedMap)) depth parts
      "objects"

end Reader

end Json

namespace Store

/- The JSON text of a store, which must not be poisoned. -/
def toJson
    (store : Store) : Except Error String :=
  match store.readable? with
  | some objects => .ok (Json.ofObjects objects).render
  | none => .error (.json .poisoned)

/- The store that a JSON text spells. -/
def ofJson
    (text : String) : Except Error Store :=
  match Json.Reader.objects.read? text with
  | some objects => .ok (ofObjects objects)
  | none => .error (.json .malformed)

end Store

end CrdtDoc
