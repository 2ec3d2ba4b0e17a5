import CrdtDoc.CrdtMap
import CrdtDoc.Json.Reader
import CrdtDoc.Update

/-
  This file defines the JSON form of maps and of updates.
  All sections are written, but any may be left out where
  one is read.

  Key definitions include:
    * `Json.ofMap`
    * `Json.Reader.map`
    * `Json.ofUpdate`
    * `Json.Reader.update`
-/

namespace CrdtDoc

namespace Json

------------------------------------------------------------
-- Writing
------------------------------------------------------------

/- The value of a section. -/
def ofEntries
    {α : Type}
    (write : α → Json)
    (entries : Entries α) : Json :=
  ofFields (entries.map fun (name, value) => (name, write value))

/- The value of several byte strings. -/
def ofMembers
    (members : List Bytes) : Json :=
  .list (members.map ofBytes)

mutual
/- The value of a map. -/
def ofMap : CrdtMap → Json
  | ⟨registers, counters, sets, flags, maps⟩ =>
      ofFields
        [("registers", ofEntries ofBytes registers),
          ("counters", ofEntries ofInteger counters),
          ("sets", ofEntries ofMembers sets),
          ("flags", ofEntries .bool flags),
          ("maps", .object (ofMaps maps))]

/- The values of the maps of a section. -/
def ofMaps : List (String × CrdtMap) → List (List Piece × Json)
  | [] => []
  | (name, map) :: rest => (quote name, ofMap map) :: ofMaps rest
end

mutual
/- The value of an update. -/
def ofUpdate : Update → Json
  | ⟨registers, counters, adds, removes, flags, maps⟩ =>
      ofFields
        [("registers", ofEntries ofBytes registers),
          ("counters", ofEntries ofInteger counters),
          ("set_adds", ofEntries ofMembers adds),
          ("set_removes", ofEntries ofMembers removes),
          ("flags", ofEntries .bool flags),
          ("maps", .object (ofUpdates maps))]

/- The values of the updates of a section. -/
def ofUpdates :
    List (String × Update) → List (List Piece × Json)
  | [] => []
  | (name, update) :: rest =>
      (quote name, ofUpdate update) :: ofUpdates rest
end

------------------------------------------------------------
-- Reading
------------------------------------------------------------

namespace Reader

/- A section, which may be left out. -/
def section?
    {α : Type}
    (item : Reader α)
    (depth : Nat)
    (parts : Parts)
    (name : String) : Option (Entries α) :=
  orElse (entries item) [] depth parts name

/- A map, once its inner maps can be read. -/
def mapOf
    (inner : Reader (Entries CrdtMap))
    (depth : Nat)
    (parts : Parts) : Option CrdtMap := do
  let registers ← section? bytes depth parts "registers"
  let counters ← section? (integer .i64) depth parts "counters"
  let sets ← section? (list bytes) depth parts "sets"
  let flags ← section? bool depth parts "flags"
  let maps ← orElse inner [] depth parts "maps"
  return ⟨registers, counters, sets, flags, maps⟩

/- The names of the sections of a map. -/
def mapSections : List String :=
  ["registers", "counters", "sets", "flags", "maps"]

/- A map. -/
def map : Reader CrdtMap
  | 0, _ => none
  | 1, json =>
      (parts? mapSections json).bind (mapOf (fun _ _ => none) 0)
  | depth + 2, json =>
      (parts? mapSections json).bind
        (mapOf (fun _ => entries (fun _ => map depth) 1)
          (depth + 1))

/- An update, once its inner updates can be read. -/
def updateOf
    (inner : Reader (Entries Update))
    (depth : Nat)
    (parts : Parts) : Option Update := do
  let registers ← section? bytes depth parts "registers"
  let counters ← section? (integer .i64) depth parts "counters"
  let adds ← section? (list bytes) depth parts "set_adds"
  let removes ← section? (list bytes) depth parts "set_removes"
  let flags ← section? bool depth parts "flags"
  let maps ← orElse inner [] depth parts "maps"
  return ⟨registers, counters, adds, removes, flags, maps⟩

/- The names of the sections of an update. -/
def updateSections : List String :=
  ["registers", "counters", "set_adds", "set_removes", "flags",
    "maps"]

/- An update. -/
def update : Reader Update
  | 0, _ => none
  | 1, json =>
      (parts? updateSections json).bind
        (updateOf (fun _ _ => none) 0)
  | depth + 2, json =>
      (parts? updateSections json).bind
        (updateOf (fun _ => entries (fun _ => update depth) 1)
          (depth + 1))

end Reader

end Json

end CrdtDoc
