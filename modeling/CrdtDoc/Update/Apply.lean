import CrdtDoc.CrdtMap
import CrdtDoc.Update

/-
  This file defines what an update does to a stored map.

  Registers and flags are replaced, and amounts are added
  to counters, which start from zero.  In sets, members are
  removed before others are added.  The sets and maps that
  an update names exist afterwards, even if nothing is to
  be put into them, except that a removal makes no set.

  Key definitions include:
    * `Update.apply`
-/

namespace CrdtDoc

namespace Update

/- Put each entry over those of a section. -/
def overwrite
    {α : Type}
    (entries : Entries α)
    (new : Entries α) : Entries α :=
  new.foldl (fun entries (name, value) =>
    Entries.insert entries name value) entries

/- Add each amount to its counter, as long as all fit. -/
def addAmounts
    (counters : Entries (Integer .i64))
    (amounts : Entries (Integer .i64)) :
    Except Abort (Entries (Integer .i64)) :=
  amounts.foldlM
    (fun counters (name, amount) =>
      let before := (Entries.find? counters name).getD .zero
      match before.add? amount with
      | none => .error .overflow
      | some sum => .ok (Entries.insert counters name sum))
    counters

/- Remove members from the sets that there are. -/
def removeFromSets
    (sets : Entries Members)
    (removes : Entries (List Bytes)) : Entries Members :=
  removes.foldl
    (fun sets (name, removed) =>
      match Entries.find? sets name with
      | none => sets
      | some members =>
          Entries.insert sets name (members.remove removed))
    sets

/- Add members to sets, which are made where missing. -/
def addToSets
    (sets : Entries Members)
    (adds : Entries (List Bytes)) : Entries Members :=
  adds.foldl
    (fun sets (name, added) =>
      let before := (Entries.find? sets name).getD []
      Entries.insert sets name (Members.insertAll before added))
    sets

mutual
/- The map after an update, as long as all amounts fit. -/
def apply : Update → CrdtMap → Except Abort CrdtMap
  | ⟨registers, counters, adds, removes, flags, maps⟩, map => do
      let summed ← addAmounts map.counters counters
      let merged ← applyAll maps map.maps
      return {
        registers := overwrite map.registers registers
        counters := summed
        sets :=
          addToSets (removeFromSets map.sets removes) adds
        flags := overwrite map.flags flags
        maps := merged }

/- The maps of a section after their updates. -/
def applyAll :
    List (String × Update) → List (String × CrdtMap) →
      Except Abort (List (String × CrdtMap))
  | [], maps => .ok maps
  | (name, update) :: rest, maps => do
      let before := (Entries.find? maps name).getD .empty
      let after ← update.apply before
      applyAll rest (Entries.insert maps name after)
end

end Update

end CrdtDoc
