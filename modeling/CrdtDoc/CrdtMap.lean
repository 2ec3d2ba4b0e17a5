import CrdtDoc.Entries
import CrdtDoc.Integer
import CrdtDoc.Members

/-
  This file defines the map that a store keeps for each
  document: registers, counters, sets, flags and further
  maps, each kind in a section of its own, so that a name
  may stand in several of them.

  Key definitions include:
    * `CrdtMap`
    * `CrdtMap.empty`
    * `CrdtMap.isEmpty`
    * `CrdtMap.at?`
    * `CrdtMap.WellFormed`
-/

namespace CrdtDoc

/- A stored map. -/
structure CrdtMap where
  registers : List (String × Bytes)
  counters : List (String × Integer .i64)
  sets : List (String × Members)
  flags : List (String × Bool)
  maps : List (String × CrdtMap)

namespace CrdtMap

/- The map without entries. -/
def empty : CrdtMap :=
  ⟨[], [], [], [], []⟩

instance : Inhabited CrdtMap :=
  ⟨empty⟩

/- The register under a name. -/
def register?
    (map : CrdtMap)
    (name : String) : Option Bytes :=
  Entries.find? map.registers name

/- The counter under a name. -/
def counter?
    (map : CrdtMap)
    (name : String) : Option (Integer .i64) :=
  Entries.find? map.counters name

/- The members of the set under a name. -/
def set?
    (map : CrdtMap)
    (name : String) : Option Members :=
  Entries.find? map.sets name

/- The flag under a name. -/
def flag?
    (map : CrdtMap)
    (name : String) : Option Bool :=
  Entries.find? map.flags name

/- The map under a name. -/
def map?
    (map : CrdtMap)
    (name : String) : Option CrdtMap :=
  Entries.find? map.maps name

/- Has the map no entry, not even an empty map? -/
def isEmpty
    (map : CrdtMap) : Bool :=
  map.registers.isEmpty && map.counters.isEmpty &&
    map.sets.isEmpty && map.flags.isEmpty && map.maps.isEmpty

/- The map that a list of names leads to. -/
def at?
    (map : CrdtMap) : List String → Option CrdtMap
  | [] => some map
  | name :: rest =>
      match map.map? name with
      | none => none
      | some child => child.at? rest

mutual
/-
  At every depth, the names of each section ascend and so
  do the members of each set.
-/
def WellFormed : CrdtMap → Prop
  | ⟨registers, counters, sets, flags, maps⟩ =>
      Entries.Ascending registers ∧
      Entries.Ascending counters ∧
      Entries.Ascending sets ∧
      (∀ entry ∈ sets, Members.Ascending entry.2) ∧
      Entries.Ascending flags ∧
      Entries.Ascending maps ∧
      AllWellFormed maps

/- All maps of a section are well-formed. -/
def AllWellFormed : List (String × CrdtMap) → Prop
  | [] => True
  | (_, map) :: rest => map.WellFormed ∧ AllWellFormed rest
end

end CrdtMap

end CrdtDoc
