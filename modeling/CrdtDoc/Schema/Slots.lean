import CrdtDoc.Schema

/-
  This file defines how a slot of a document is found: by
  the fields, and by the keys of tables, that lead to it.  A
  key may be spelled in any way that reads as it.

  Key definitions include:
    * `FoundSlot`
    * `Schema.slot?`
-/

namespace CrdtDoc

/-
  A slot within something, and what that becomes once the
  slot is filled otherwise.
-/
structure FoundSlot (α : Type) where
  kind : HandleKind
  slot : Slot kind
  fill : Slot kind → α

/- The same slot within something larger. -/
def FoundSlot.within
    {α β : Type}
    (found : FoundSlot α)
    (larger : α → β) : FoundSlot β :=
  ⟨found.kind, found.slot, fun slot => larger (found.fill slot)⟩

mutual
/- The slot that a path leads to within a value. -/
def FieldType.slot? :
    (type : FieldType) → type.Value → List String →
      Option (FoundSlot type.Value)
  | .slot kind, slot, [] => some ⟨kind, slot, id⟩
  | .document schema, document, path =>
      schema.slot? document path
  | .table _ key value, table, name :: rest => do
      let k ← key.parse? name
      let item ← Table.find? table k
      let found ← value.slot? item rest
      return found.within (Table.insert table k)
  | _, _, _ => none

/- The slot that a path leads to within a document. -/
def Schema.slot? :
    (schema : Schema) → schema.Document → List String →
      Option (FoundSlot schema.Document)
  | .stored field _ type rest, (value, values), name :: path =>
      if field = name then
        (type.slot? value path).map (·.within (·, values))
      else
        (rest.slot? values (name :: path)).map
          (·.within (value, ·))
  | .skipped field type rest, (value, values), name :: path =>
      if field = name then
        (type.slot? value path).map (·.within (·, values))
      else
        (rest.slot? values (name :: path)).map
          (·.within (value, ·))
  | .context _ rest, (value, values), path =>
      (rest.slot? values path).map (·.within (value, ·))
  | _, _, _ => none
end

end CrdtDoc
