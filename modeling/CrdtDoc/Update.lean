import CrdtDoc.Abort
import CrdtDoc.Entries
import CrdtDoc.Integer

/-
  This file defines updates: what is to be written to a map
  and to the maps within it, before it is sent.  An update
  is collected from single writes, each at a path of names.

  A counter holds the sum of its increments, and a set the
  members added, each once, apart from those removed.  No
  name of a map may be written both as a register and as a
  set with added members.

  Key definitions include:
    * `Update`
    * `Update.isEmpty`
    * `Update.removesMembers`
    * `Write`
    * `Update.write`
    * `Update.modifyAt`
    * `Update.writeAt`
    * `Update.grow`
-/

namespace CrdtDoc

------------------------------------------------------------
-- Updates
------------------------------------------------------------

/- What is to be written to a map. -/
structure Update where
  registers : List (String × Bytes)
  counters : List (String × Integer .i64)
  adds : List (String × List Bytes)
  removes : List (String × List Bytes)
  flags : List (String × Bool)
  maps : List (String × Update)

namespace Update

/- The update that writes nothing. -/
def empty : Update :=
  ⟨[], [], [], [], [], []⟩

instance : Inhabited Update :=
  ⟨empty⟩

/- The bytes to be written to a register. -/
def register?
    (update : Update)
    (name : String) : Option Bytes :=
  Entries.find? update.registers name

/- The amount to be added to a counter. -/
def counter?
    (update : Update)
    (name : String) : Option (Integer .i64) :=
  Entries.find? update.counters name

/- The members to be added to a set. -/
def adds?
    (update : Update)
    (name : String) : Option (List Bytes) :=
  Entries.find? update.adds name

/- The members to be removed from a set. -/
def removes?
    (update : Update)
    (name : String) : Option (List Bytes) :=
  Entries.find? update.removes name

/- The state to be written to a flag. -/
def flag?
    (update : Update)
    (name : String) : Option Bool :=
  Entries.find? update.flags name

/- What is to be written to the map under a name. -/
def map?
    (update : Update)
    (name : String) : Option Update :=
  Entries.find? update.maps name

/- What is to be written to the map under a path. -/
def at?
    (update : Update) : List String → Option Update
  | [] => some update
  | name :: rest =>
      match update.map? name with
      | none => none
      | some child => child.at? rest

mutual
/-
  Is nothing to be written at any depth?  Maps that are to
  exist, but have nothing in them, do not count.
-/
def isEmpty : Update → Bool
  | ⟨registers, counters, adds, removes, flags, maps⟩ =>
      registers.isEmpty && counters.isEmpty &&
        adds.isEmpty && removes.isEmpty && flags.isEmpty &&
        allEmpty maps

/- Do all maps of a section have nothing to be written? -/
def allEmpty : List (String × Update) → Bool
  | [] => true
  | (_, update) :: rest => update.isEmpty && allEmpty rest
end

mutual
/- Is a member to be removed from a set at any depth? -/
def removesMembers : Update → Bool
  | ⟨_, _, _, removes, _, maps⟩ =>
      removes.any (fun entry => !entry.2.isEmpty) ||
        anyRemovesMembers maps

/- Is one to be removed within the maps of a section? -/
def anyRemovesMembers : List (String × Update) → Bool
  | [] => false
  | (_, update) :: rest =>
      update.removesMembers || anyRemovesMembers rest
end

mutual
/- At every depth, the names of each section ascend. -/
def WellFormed : Update → Prop
  | ⟨registers, counters, adds, removes, flags, maps⟩ =>
      Entries.Ascending registers ∧
      Entries.Ascending counters ∧
      Entries.Ascending adds ∧
      Entries.Ascending removes ∧
      Entries.Ascending flags ∧
      Entries.Ascending maps ∧
      AllWellFormed maps

/- All maps of a section are well-formed. -/
def AllWellFormed : List (String × Update) → Prop
  | [] => True
  | (_, update) :: rest =>
      update.WellFormed ∧ AllWellFormed rest
end

end Update

------------------------------------------------------------
-- Writes
------------------------------------------------------------

/- A single write to a map. -/
inductive Write where
  | register (name : String) (value : Bytes)
  | increment (name : String) (amount : Integer .i64)
  | add (name : String) (member : Bytes)
  | remove (name : String) (member : Bytes)
  | flag (name : String) (state : Bool)
  | map (name : String)
deriving DecidableEq, Repr

namespace Update

/- Write a register.  Its name must not be that of a set. -/
def setRegister
    (update : Update)
    (name : String)
    (value : Bytes) : Except Abort Update :=
  if Entries.contains update.adds name then
    .error (.nameOfSet name)
  else
    .ok { update with
      registers := Entries.insert update.registers name value }

/- Add to a counter, which starts from zero. -/
def increment
    (update : Update)
    (name : String)
    (amount : Integer .i64) : Except Abort Update :=
  let before := (update.counter? name).getD .zero
  match before.add? amount with
  | none => .error .overflow
  | some sum =>
      .ok { update with
        counters := Entries.insert update.counters name sum }

/-
  Add a member to a set, unless it is added already.  The
  name of the set must not be that of a register.
-/
def addMember
    (update : Update)
    (name : String)
    (member : Bytes) : Except Abort Update :=
  if Entries.contains update.registers name then
    .error (.nameOfRegister name)
  else
    let before := (update.adds? name).getD []
    let after :=
      if before.contains member then before
      else before ++ [member]
    .ok { update with
      adds := Entries.insert update.adds name after }

/- Remove a member from a set, once more if need be. -/
def removeMember
    (update : Update)
    (name : String)
    (member : Bytes) : Update :=
  let before := (update.removes? name).getD []
  { update with
    removes :=
      Entries.insert update.removes name (before ++ [member]) }

/- Write a flag. -/
def setFlag
    (update : Update)
    (name : String)
    (state : Bool) : Update :=
  { update with
    flags := Entries.insert update.flags name state }

/- What is to be written to a map, which is made if new. -/
def child
    (update : Update)
    (name : String) : Update :=
  (update.map? name).getD empty

/- Put what is to be written to the map under a name. -/
def setChild
    (update : Update)
    (name : String)
    (child : Update) : Update :=
  { update with
    maps := Entries.insert update.maps name child }

/- One write to the map itself. -/
def write
    (update : Update) : Write → Except Abort Update
  | .register name value => update.setRegister name value
  | .increment name amount => update.increment name amount
  | .add name member => update.addMember name member
  | .remove name member => .ok (update.removeMember name member)
  | .flag name state => .ok (update.setFlag name state)
  | .map name => .ok (update.setChild name (update.child name))

/- Make the maps along a path, where they are missing. -/
def grow
    (update : Update) : List String → Update
  | [] => update
  | name :: rest =>
      update.setChild name ((update.child name).grow rest)

/-
  Change what is to be written to the map under a path.
  The maps along the path are made where they are missing.
-/
def modifyAt
    {ε : Type}
    (update : Update)
    (change : Update → Except ε Update) :
    List String → Except ε Update
  | [] => change update
  | name :: rest => do
      let child ← (update.child name).modifyAt change rest
      return update.setChild name child

/- One write to the map under a path. -/
def writeAt
    (update : Update)
    (path : List String)
    (write : Write) : Except Abort Update :=
  update.modifyAt (·.write write) path

/- Writes at their paths, one after the other. -/
def writeAll
    (update : Update)
    (writes : List (List String × Write)) :
    Except Abort Update :=
  writes.foldlM
    (fun update (path, write) => update.writeAt path write)
    update

end Update

end CrdtDoc
