import CrdtDoc.Handle.Binding

/-
  This file defines handles of sets.  A handle shows the
  items as last seen with the changes made since, and keeps
  the additions and removals that have not been sent.

  The empty byte string is no item: it is written as the
  member that makes an otherwise empty set.

  Key definitions include:
    * `SetHandle`
    * `SetHandle.add`
    * `SetHandle.remove`
    * `SetHandle.load`
    * `SetHandle.received`
-/

namespace CrdtDoc

/- A handle of a set. -/
structure SetHandle where
  binding : Binding
  items : List Bytes
  adds : List Bytes
  removes : List Bytes
deriving DecidableEq, Repr, Inhabited

namespace SetHandle

/- The handle of a set that has not been read. -/
def bound
    (binding : Binding) : SetHandle :=
  ⟨binding, [], [], []⟩

/- The items of a stored set, in their stored order. -/
def storedItems
    (map : CrdtMap)
    (name : String) : List Bytes :=
  ((map.set? name).getD []).filter fun member =>
    !member.isEmpty

/- The handle of a set as it stands in a map. -/
def load
    (binding : Binding)
    (map : CrdtMap) : SetHandle :=
  ⟨binding, storedItems map binding.name, [], []⟩

/- Is an item in the set? -/
def has
    (set : SetHandle)
    (item : Bytes) : Bool :=
  set.items.contains item

/- The items as shown. -/
def texts
    (set : SetHandle) : List String :=
  set.items.map Text.lossy

/- Add an item that is not in the set. -/
def add
    (set : SetHandle)
    (item : Bytes) : SetHandle :=
  if item.isEmpty || set.has item then set
  else
    { set with
      items := set.items ++ [item]
      adds := set.adds ++ [item]
      removes := set.removes.filter (· ≠ item) }

/- Remove an item, also if it is not in the set. -/
def remove
    (set : SetHandle)
    (item : Bytes) : SetHandle :=
  { set with
    items := set.items.filter (· ≠ item)
    adds := set.adds.filter (· ≠ item)
    removes := set.removes ++ [item] }

/- Send the changes that have not been sent. -/
def writes
    (set : SetHandle)
    (name : String) : List Write :=
  set.adds.map (Write.add name) ++
    set.removes.map (Write.remove name)

/- The writes that make a set. -/
def placeholder
    (name : String) : List Write :=
  [.add name []]

/-
  The handle after its changes were sent.  If the answer
  shows the map of the set, it shows the items, and an
  answer's context replaces the one before it.
-/
def received
    (set : SetHandle)
    (document? : Option CrdtMap)
    (context : Bytes) : SetHandle :=
  let items :=
    match document?.bind set.binding.mapIn? with
    | some map => storedItems map set.binding.name
    | none => set.items
  let context :=
    if context.isEmpty then set.binding.context else context
  { binding := { set.binding with context }
    items
    adds := []
    removes := [] }

end SetHandle

end CrdtDoc
