import CrdtDoc.Command
import CrdtDoc.Update.Apply

/-
  This file defines a store that keeps its maps in memory.
  Each map has a version, which counts the updates it got,
  and the causal context of a map is its version.

  A store logs each command.  An update that stops for good
  leaves it poisoned: from then on it answers no command.

  Key definitions include:
    * `Store`
    * `Store.empty`
    * `Store.stored?`
    * `Store.size`
    * `Store.execute`
-/

namespace CrdtDoc

------------------------------------------------------------
-- Stored Maps
------------------------------------------------------------

/- A map and the number of updates that it got. -/
structure StoredMap where
  map : CrdtMap
  version : Integer .u64

namespace StoredMap

/- The map that no update was made to. -/
def new : StoredMap :=
  ⟨.empty, .zero⟩

/- The causal context of a map. -/
def context
    (stored : StoredMap) : Bytes :=
  Bytes.bigEndian 8 stored.version.toInt.toNat

/- The map after one more update. -/
def update
    (stored : StoredMap)
    (update : Update) : Except Abort StoredMap := do
  let map ← update.apply stored.map
  match stored.version.add? ⟨1, by decide, by decide⟩ with
  | none => .error .overflow
  | some version => return ⟨map, version⟩

end StoredMap

------------------------------------------------------------
-- Stores
------------------------------------------------------------

/- A store in memory.  Its maps are kept by location. -/
structure Store where
  objects : List (Location × StoredMap)
  log : List Command
  poisoned : Bool
  issuedKeys : Nat

namespace Store

/- The store without maps. -/
def empty : Store :=
  ⟨[], [], false, 0⟩

instance : Inhabited Store :=
  ⟨empty⟩

/- The map of a location, with its version. -/
def find?
    (objects : List (Location × StoredMap))
    (location : Location) : Option StoredMap :=
  objects.lookup location

/- Put a map to a location, in place of any other. -/
def put
    (objects : List (Location × StoredMap))
    (location : Location)
    (stored : StoredMap) : List (Location × StoredMap) :=
  match objects with
  | [] => [(location, stored)]
  | (other, old) :: rest =>
      if location = other then (location, stored) :: rest
      else if location.less other then
        (location, stored) :: (other, old) :: rest
      else (other, old) :: put rest location stored

/- Take the map of a location away. -/
def remove
    (objects : List (Location × StoredMap))
    (location : Location) : List (Location × StoredMap) :=
  objects.filter fun entry => entry.1 ≠ location

/- A location has the map that was put to it last. -/
theorem find?_put
    (objects : List (Location × StoredMap))
    (location other : Location)
    (stored : StoredMap) :
    find? (put objects location stored) other =
      if other = location then some stored
      else find? objects other := by
  unfold find?
  induction objects with
  | nil =>
      by_cases hEq : other = location
      · simp [put, hEq]
      · simp [put, hEq]
  | cons entry rest ih =>
      obtain ⟨first, old⟩ := entry
      rw [put]
      split
      · rename_i hFirst
        subst hFirst
        by_cases hEq : other = location
        · simp [hEq]
        · simp [List.lookup_cons, hEq,
            beq_eq_false_iff_ne.mpr hEq]
      · rename_i hFirst
        split
        · by_cases hEq : other = location
          · simp [hEq]
          · simp [List.lookup_cons, hEq,
              beq_eq_false_iff_ne.mpr hEq]
        · rw [List.lookup_cons, List.lookup_cons, ih]
          by_cases hEq : other = location
          · simp [hEq, beq_eq_false_iff_ne.mpr hFirst]
          · simp [hEq]

/- Nothing is left at a location whose map was taken away. -/
theorem find?_remove
    (objects : List (Location × StoredMap))
    (location other : Location) :
    find? (remove objects location) other =
      if other = location then none
      else find? objects other := by
  unfold find? remove
  induction objects with
  | nil => simp
  | cons entry rest ih =>
      obtain ⟨first, old⟩ := entry
      by_cases hFirst : first = location
      · subst hFirst
        by_cases hEq : other = first
        · simpa [List.lookup_cons, hEq] using ih
        · simpa [List.lookup_cons, hEq,
            beq_eq_false_iff_ne.mpr hEq] using ih
      · by_cases hEq : other = first
        · simp [hEq, hFirst]
        · simpa [List.lookup_cons, hFirst,
            beq_eq_false_iff_ne.mpr hEq] using ih

/- The store of given maps.  The last one counts. -/
def ofObjects
    (objects : List (Location × StoredMap)) : Store :=
  { empty with
    objects :=
      objects.foldl
        (fun objects (location, stored) =>
          put objects location stored)
        [] }

/- The maps of a store, unless it is poisoned. -/
def readable?
    (store : Store) : Option (List (Location × StoredMap)) :=
  if store.poisoned then none else some store.objects

/- The map that is stored at a location. -/
def stored?
    (store : Store)
    (location : Location) : Option CrdtMap :=
  (store.readable?.bind (find? · location)).map (·.map)

/- The number of maps that can be read. -/
def size
    (store : Store) : Nat :=
  (store.readable?.getD []).length

/- Forget the commands so far, which are given back. -/
def takeLog
    (store : Store) : List Command × Store :=
  (store.log, { store with log := [] })

------------------------------------------------------------
-- Commands
------------------------------------------------------------

/- What a poisoned store answers. -/
def poisonedError : TransportError :=
  .other "in-memory store lock poisoned"

/- The answer to a fetch. -/
def fetched
    (stored? : Option StoredMap) : Fetched :=
  match stored? with
  | some stored => ⟨stored.map, stored.context, false⟩
  | none => ⟨.empty, [], true⟩

/- Why an update is refused, before anything is done. -/
def refusal?
    (command : Change) : Option TransportError :=
  if command.location.bucket.isEmpty ||
      command.location.bucketType.isEmpty then
    some (.protocol "bucket and bucket type are required")
  else if command.context.isNone &&
      command.update.removesMembers then
    some (.protocol "set removal requires the causal context")
  else none

/- The location of an update, with a new key if need be. -/
def keyed
    (newKey : Nat → String)
    (location : Location) :
    Run Store (Location × Option String) := do
  if location.key.isEmpty then
    let key := newKey (← get).issuedKeys
    modify fun store =>
      { store with issuedKeys := store.issuedKeys + 1 }
    return (location.withKey key, some key)
  else return (location, none)

/- The maps of a store, to be read or changed. -/
def unlocked :
    Run Store
      (Except TransportError (List (Location × StoredMap))) := do
  match (← get).readable? with
  | some objects => return .ok objects
  | none => return .error poisonedError

/- One more update of a map.  A stop poisons the store. -/
def updateMap
    (stored : StoredMap)
    (update : Update) : Run Store StoredMap := do
  match stored.update update with
  | .ok stored => return stored
  | .error reason =>
      modify fun store => { store with poisoned := true }
      throw reason

/-
  Change the map of a location, which is made if new.  A
  poisoned store issues no key.
-/
def change
    (newKey : Nat → String)
    (command : Change) :
    Run Store (Except TransportError Response) := do
  match refusal? command with
  | some error => return .error error
  | none =>
      match ← unlocked with
      | .error error => return .error error
      | .ok objects =>
          let (location, generatedKey) ←
            keyed newKey command.location
          let before := (find? objects location).getD .new
          let stored ← updateMap before command.update
          modify fun store =>
            { store with objects := put objects location stored }
          let map :=
            if command.returnBody then some stored.map else none
          return .ok
            (.changed ⟨generatedKey, map, stored.context⟩)

/- Answer one command. -/
def answer
    (newKey : Nat → String) :
    Command → Run Store (Except TransportError Response)
  | .fetch command => do
      match ← unlocked with
      | .error error => return .error error
      | .ok objects =>
          return .ok
            (.fetched (fetched (find? objects command.location)))
  | .change command => change newKey command
  | .delete command => do
      match ← unlocked with
      | .error error => return .error error
      | .ok objects =>
          modify fun store =>
            { store with objects := remove objects command.location }
          return .ok .deleted

/-
  Log a command and answer it.  New keys come from a list
  that goes on after the keys that were issued before.
-/
def execute
    (newKey : Nat → String) : Transport Store :=
  fun command => do
    modify fun store => { store with log := store.log ++ [command] }
    answer newKey command

end Store

end CrdtDoc
