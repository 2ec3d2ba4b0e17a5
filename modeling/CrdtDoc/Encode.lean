import CrdtDoc.CodecError
import CrdtDoc.Schema

/-
  This file defines how a document is written: the update
  that stores it, collected field by field in their order.

  A document can also be written so that its empty slots
  are bound on the way: each gets a handle of the entry that
  it was just written to.  Slots within tables stay empty.

  Key definitions include:
    * `Schema.encode`
    * `SlotMode`
    * `Schema.encodeBinding`
    * `Schema.causalContext`
    * `Encoded`
    * `Schema.encodeDocument`
    * `Schema.encodeDocumentBinding`
-/

namespace CrdtDoc

------------------------------------------------------------
-- Fields
------------------------------------------------------------

namespace Update

/- Writes one after the other, as part of a document. -/
def writeList
    (update : Update)
    (writes : List Write) : Except EncodeFailure Update :=
  EncodeFailure.ofAbort (writes.foldlM Update.write update)

/- Write a register, as part of a document. -/
def writeRegister
    (update : Update)
    (name : String)
    (value : Bytes) : Except EncodeFailure Update :=
  EncodeFailure.ofAbort (update.setRegister name value)

/- Add one element to a set, as part of a document. -/
def writeElement
    (update : Update)
    (name : String)
    (element : Element)
    (item : element.Value) : Except EncodeFailure Update := do
  let member ←
    EncodeFailure.ofCodec (element.toMember name item)
  EncodeFailure.ofAbort (update.addMember name member)

/-
  Write a list: bytes as a register, other elements as the
  members of a set, which is not made for an empty list.
-/
def writeItems
    (update : Update)
    (name : String)
    (element : Element)
    (items : List element.Value) :
    Except EncodeFailure Update :=
  match element.shape with
  | .byte => update.writeRegister name (element.bytes items)
  | .scalar | .nested =>
      items.foldlM
        (fun update item =>
          update.writeElement name element item)
        update
  | .unsupported =>
      .error (.codec (.unexpectedKind name element.name))

/- Write an array: of bytes, or without any elements. -/
def writeArray
    (update : Update)
    (name : String)
    (element : Element)
    (items : List element.Value) :
    Except EncodeFailure Update :=
  if items.length > 0 ∧ element.shape ≠ .byte then
    .error (.codec (.arrayElement name element.name))
  else update.writeRegister name (element.bytes items)

end Update

mutual
/- Write a value under a name. -/
def FieldType.encode :
    (type : FieldType) → type.Value → String → Update →
      Except EncodeFailure Update
  | .int _, value, name, update =>
      update.writeRegister name
        (Text.encode (Integer.text value))
  | .text, value, name, update =>
      update.writeRegister name (Text.encode value)
  | .bool, value, name, update =>
      .ok (update.setFlag name value)
  | .timestamp, value, name, update =>
      update.writeRegister name (Timestamp.toBytes value)
  | .float32, _, name, _ =>
      .error (.codec (.unexpectedKind name "f32"))
  | .float64, _, name, _ =>
      .error (.codec (.unexpectedKind name "f64"))
  | .char, _, name, _ =>
      .error (.codec (.unexpectedKind name "char"))
  | .slot _, slot, name, update =>
      update.writeList (Slot.writes slot name)
  | .list element, items, name, update =>
      update.writeItems name element items
  | .array element _, items, name, update =>
      update.writeArray name element items.val
  | .document schema, document, name, update => do
      let child ← schema.encode document (update.child name)
      return update.setChild name child
  | .table _ key value, table, name, update => do
      let child ←
        table.entries.foldlM
          (fun child entry =>
            value.encode entry.2 (key.written entry.1) child)
          (update.child name)
      return update.setChild name child

/- Write the fields of a document in their order. -/
def Schema.encode :
    (schema : Schema) → schema.Document → Update →
      Except EncodeFailure Update
  | .nil, _, update => .ok update
  | .stored _ name type rest, (value, values), update => do
      let update ← type.encode value name update
      rest.encode values update
  | .skipped _ _ rest, (_, values), update =>
      rest.encode values update
  | .context _ rest, (_, values), update =>
      rest.encode values update
end

------------------------------------------------------------
-- Bound Slots
------------------------------------------------------------

/- Are empty slots filled as they are written? -/
inductive SlotMode where
  | filling
  | keeping
deriving DecidableEq, Repr

/- A slot, filled with a handle of its entry if empty. -/
def Slot.orBound
    {kind : HandleKind}
    (slot : Slot kind)
    (path : Path)
    (name : String) : Slot kind :=
  some (slot.getD (kind.bound (Binding.ofName path name)))

/- A slot after it was written to the map of a path. -/
def Slot.bindIn
    {kind : HandleKind}
    (slot : Slot kind)
    (path : Path)
    (name : String) : SlotMode → Slot kind
  | .filling => slot.orBound path name
  | .keeping => slot

mutual
/-
  Write a value under a name in the map of a path, and fill
  its empty slots as far as they were written, if they are
  to be filled.  Within tables they are not.
-/
def FieldType.encodeBinding :
    (type : FieldType) → type.Value → String → SlotMode →
      Path → Update →
      Except EncodeFailure Update × type.Value
  | .slot kind, slot, name, mode, path, update =>
      match FieldType.encode (.slot kind) slot name update with
      | .ok update =>
          (.ok update, Slot.bindIn slot path name mode)
      | .error failure => (.error failure, slot)
  | .document schema, document, name, mode, path, update =>
      let (result, document) :=
        schema.encodeBinding document mode (path.child name)
          (update.child name)
      (result.map (update.setChild name), document)
  | .table _ key type, table, name, _, path, update =>
      let (result, table) :=
        Table.change
          (fun k value child =>
            type.encodeBinding value (key.written k) .keeping
              (path.child name) child)
          table (update.child name)
      (result.map (update.setChild name), table)
  | .int type, value, name, _, _, update =>
      (FieldType.encode (.int type) value name update, value)
  | .text, value, name, _, _, update =>
      (FieldType.encode .text value name update, value)
  | .bool, value, name, _, _, update =>
      (FieldType.encode .bool value name update, value)
  | .timestamp, value, name, _, _, update =>
      (FieldType.encode .timestamp value name update, value)
  | .float32, value, name, _, _, update =>
      (FieldType.encode .float32 value name update, value)
  | .float64, value, name, _, _, update =>
      (FieldType.encode .float64 value name update, value)
  | .char, value, name, _, _, update =>
      (FieldType.encode .char value name update, value)
  | .list element, value, name, _, _, update =>
      (FieldType.encode (.list element) value name update,
        value)
  | .array element length, value, name, _, _, update =>
      (FieldType.encode (.array element length) value name
        update, value)

/-
  Write the fields of a document to the map of a path, and
  fill its empty slots as far as they were written, if they
  are to be filled.
-/
def Schema.encodeBinding :
    (schema : Schema) → schema.Document → SlotMode → Path →
      Update → Except EncodeFailure Update × schema.Document
  | .nil, document, _, _, update => (.ok update, document)
  | .stored _ name type rest, (value, values), mode, path,
    update =>
      match type.encodeBinding value name mode path update with
      | (.ok update, value) =>
          let (result, values) :=
            rest.encodeBinding values mode path update
          (result, (value, values))
      | (.error failure, value) =>
          (.error failure, (value, values))
  | .skipped _ _ rest, (value, values), mode, path, update =>
      let (result, values) :=
        rest.encodeBinding values mode path update
      (result, (value, values))
  | .context _ rest, (value, values), mode, path, update =>
      let (result, values) :=
        rest.encodeBinding values mode path update
      (result, (value, values))
end

------------------------------------------------------------
-- Documents
------------------------------------------------------------

namespace Schema

/- The bytes of a document's last context field, if any. -/
def lastContext? :
    (schema : Schema) → schema.Document → Option Bytes
  | .nil, _ => none
  | .stored _ _ _ rest, (_, values) =>
      rest.lastContext? values
  | .skipped _ _ rest, (_, values) =>
      rest.lastContext? values
  | .context _ rest, (bytes, values) =>
      (rest.lastContext? values).or (some bytes)

/- The causal context that a document was read with. -/
def causalContext
    (schema : Schema)
    (document : schema.Document) : Bytes :=
  (schema.lastContext? document).getD []

end Schema

/- A document as written, with its causal context. -/
structure Encoded where
  update : Update
  context : Bytes

namespace Schema

/- The update that stores a document at a path. -/
def encodeDocument
    (schema : Schema)
    (document : schema.Document)
    (root : Path) : Except EncodeFailure Encoded := do
  let update ←
    Update.empty.modifyAt (schema.encode document) root.segments
  return ⟨update, schema.causalContext document⟩

/-
  The update that stores a document at a path, and the
  document with its empty slots filled.
-/
def encodeDocumentBinding
    (schema : Schema)
    (document : schema.Document)
    (root : Path) :
    Except EncodeFailure Encoded × schema.Document :=
  let (result, bound) :=
    schema.encodeBinding document .filling root .empty
  let encoded := do
    let update ← result
    let update ←
      Update.empty.modifyAt (fun _ => .ok update) root.segments
    return ⟨update, schema.causalContext document⟩
  (encoded, bound)

end Schema

end CrdtDoc
