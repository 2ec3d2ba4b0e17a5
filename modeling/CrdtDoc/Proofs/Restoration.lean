import CrdtDoc.Members
import CrdtDoc.Schema

/-
  This file defines when a document that was read restores
  one that was stored.

  Nothing comes back if a point in time has a leap second
  where no minute ends, or if the values of a table have no
  kind.  Otherwise, everything comes back as it was, but for
  this.  The items of a set come back in the order of their
  members and each once, and an empty list is not stored, so
  that the older list stays.  Slots are filled with handles
  of their entries, without anything to be sent.  Values in
  a table that write no entry of their kind are lost with
  their keys.  Fields that are not stored stay as they were,
  and context fields have the context that was read.

  Key definitions include:
    * `FieldType.HasEntry`
    * `Schema.TimesRegular`
    * `Schema.IsReadable`
    * `Element.Restored`
    * `Slot.Restored`
    * `FieldType.Restored`
    * `Schema.Restored`
-/

namespace CrdtDoc

------------------------------------------------------------
-- Definitions
------------------------------------------------------------

/- Does a slot put something into the section of its kind? -/
def Slot.HasEntry :
    {kind : HandleKind} → Slot kind → Prop
  | .counter, _ => True
  | .set, slot => slot.elim [[]] SetHandle.adds ≠ []
  | .flag, slot => slot ≠ none
  | .register, slot => slot ≠ none

/- Does a value put something into the section of its kind? -/
def FieldType.HasEntry :
    (type : FieldType) → type.Value → Prop
  | .slot _, held => Slot.HasEntry held
  | .list element, items =>
      element.shape = .byte ∨ items ≠ []
  | _, _ => True

mutual
/- Are all points in time in a value regular? -/
def FieldType.TimesRegular :
    (type : FieldType) → type.Value → Prop
  | .timestamp, time => Timestamp.IsRegular time
  | .document schema, document => schema.TimesRegular document
  | .table _ _ value, table =>
      ∀ item ∈ Table.entries table, value.TimesRegular item.2
  | _, _ => True

/- Are all points in time in the stored fields regular? -/
def Schema.TimesRegular :
    (schema : Schema) → schema.Document → Prop
  | .nil, _ => True
  | .stored _ _ type rest, (value, values) =>
      type.TimesRegular value ∧ rest.TimesRegular values
  | .skipped _ _ rest, (_, values) => rest.TimesRegular values
  | .context _ rest, (_, values) => rest.TimesRegular values
end

mutual
/-
  Can a value be read once it is stored?  All tables met in
  it must have a kind of values, and all points in time must
  be regular.
-/
def FieldType.IsReadable :
    (type : FieldType) → type.Value → Prop
  | .timestamp, time => Timestamp.IsRegular time
  | .document schema, document => schema.IsReadable document
  | .table _ _ value, table =>
      (∀ kind, value.kind ≠ .unsupported kind) ∧
      ∀ item ∈ Table.entries table, value.IsReadable item.2
  | _, _ => True

/- Can the stored fields be read once they are stored? -/
def Schema.IsReadable :
    (schema : Schema) → schema.Document → Prop
  | .nil, _ => True
  | .stored _ _ type rest, (value, values) =>
      type.IsReadable value ∧ rest.IsReadable values
  | .skipped _ _ rest, (_, values) => rest.IsReadable values
  | .context _ rest, (_, values) => rest.IsReadable values
end

/-
  A list comes back: bytes as they were, others each once
  and in the order of the members that stand for them.
-/
def Element.Restored
    (element : Element)
    (name : String)
    (old items new : List element.Value) : Prop :=
  match element.shape with
  | .byte => new = items
  | .scalar | .nested =>
      (items = [] → new = old) ∧
      (items ≠ [] →
        (∀ item, item ∈ new ↔ item ∈ items) ∧
        ∃ members,
          new.mapM (element.toMember name) = .ok members ∧
          Members.Ascending members)
  | .unsupported => False

/-
  A slot comes back as a handle of its entry, with what was
  to be sent, or with nothing.
-/
def Slot.Restored :
    {kind : HandleKind} → Binding → Slot kind →
      Slot kind → Prop
  | .counter, binding, slot, new =>
      new = some
        ⟨binding, slot.elim .zero Counter.pending, .zero⟩
  | .set, binding, slot, new =>
      ∃ items,
        new = some ⟨binding, items, [], []⟩ ∧
        Members.Ascending items ∧
        ∀ item,
          item ∈ items ↔
            item ≠ [] ∧ item ∈ slot.elim [] SetHandle.adds
  | .flag, binding, slot, new =>
      new = some ⟨binding, slot.elim false Flag.state⟩
  | .register, binding, slot, new =>
      new = some ⟨binding, slot.elim [] Register.value⟩

mutual
/-
  A value read at an entry restores the value stored, where
  there was an older one.
-/
def FieldType.Restored :
    (type : FieldType) → Binding → type.Value →
      type.Value → type.Value → Prop
  | .int _, _, _, value, new => new = value
  | .text, _, _, value, new => new = value
  | .bool, _, _, value, new => new = value
  | .timestamp, _, _, value, new => new = value
  | .float32, _, _, _, _ => False
  | .float64, _, _, _, _ => False
  | .char, _, _, _, _ => False
  | .slot _, binding, _, slot, new =>
      Slot.Restored binding slot new
  | .list element, binding, old, items, new =>
      element.Restored binding.name old items new
  | .array _ _, _, _, items, new => new = items
  | .document schema, ⟨path, name, context⟩, old, document,
    new =>
      schema.Restored (path.child name) context old document
        new
  | .table _ key value, ⟨path, name, context⟩, _, table,
    new =>
      ∀ k,
        (∀ item,
          Table.find? table k = some item →
          value.HasEntry item →
          ∃ again,
            Table.find? new k = some again ∧
            value.Restored
              ⟨path.child name, key.written k, context⟩
              value.default item again) ∧
        ((∀ item,
          Table.find? table k = some item →
          ¬value.HasEntry item) →
          Table.find? new k = none)

/-
  A document read at a path restores the document stored,
  where there was an older one.
-/
def Schema.Restored :
    (schema : Schema) → Path → Bytes → schema.Document →
      schema.Document → schema.Document → Prop
  | .nil, _, _, _, _, _ => True
  | .stored _ name type rest, path, context, (old, olds),
    (value, values), (new, news) =>
      type.Restored ⟨path, name, context⟩ old value new ∧
      rest.Restored path context olds values news
  | .skipped _ _ rest, path, context, (old, olds),
    (_, values), (new, news) =>
      new = old ∧ rest.Restored path context olds values news
  | .context _ rest, path, context, (_, olds), (_, values),
    (new, news) =>
      new = context ∧
      rest.Restored path context olds values news
end

end CrdtDoc
