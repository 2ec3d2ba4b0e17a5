import CrdtDoc.CodecError
import CrdtDoc.Schema

/-
  This file defines how a document is read from a stored
  map, field by field in their order, over a document that
  is there already.

  What the map lacks keeps its value, apart from slots,
  which are always filled anew.  Registers that do not fit
  their field are passed over; but the members of sets, the
  entries of tables and points in time must fit.  A table is
  replaced as a whole.

  Key definitions include:
    * `Source`
    * `FieldType.decode`
    * `Schema.decode`
    * `Schema.decodeDocument`
-/

namespace CrdtDoc

------------------------------------------------------------
-- Sources
------------------------------------------------------------

/- A stored map with its path and its causal context. -/
structure Source where
  map : CrdtMap
  path : Path
  context : Bytes

namespace Source

/- The entry of a name, with the context it was read with. -/
def binding
    (source : Source)
    (name : String) : Binding :=
  ⟨source.path, name, source.context⟩

/- The map of a name within a stored map. -/
def child?
    (source : Source)
    (name : String) : Option Source :=
  (source.map.map? name).map fun map =>
    ⟨map, source.path.child name, source.context⟩

end Source

------------------------------------------------------------
-- Single Entries
------------------------------------------------------------

/- A value after reading, and whether it could be read. -/
abbrev Reading (α : Type) : Type :=
  Except CodecError Unit × α

namespace Reading

/- The value as it is. -/
def done
    {α : Type}
    (value : α) : Reading α :=
  (.ok (), value)

/- A new value, or an error that keeps the old one. -/
def replace
    {α : Type}
    (old : α) : Except CodecError α → Reading α
  | .ok new => (.ok (), new)
  | .error error => (.error error, old)

/- A new value, if there is one. -/
def orKeep
    {α : Type}
    (old : α)
    (new? : Option α) : Reading α :=
  done (new?.getD old)

/- The value read, if it could be read. -/
def result
    {α : Type}
    (reading : Reading α) : Except CodecError α :=
  reading.1.map fun _ => reading.2

end Reading

namespace Source

/- The point in time under a name. -/
def timestamp
    (source : Source)
    (name : String)
    (old : Timestamp) : Except CodecError Timestamp :=
  match source.map.register? name with
  | none => .ok old
  | some bytes =>
      (Timestamp.ofBytes bytes).mapError
        (.invalidTimestamp name)

/- The list under a name. -/
def items
    (source : Source)
    (name : String)
    (element : Element)
    (old : List element.Value) :
    Except CodecError (List element.Value) :=
  match element.shape with
  | .byte =>
      match source.map.register? name with
      | none => .ok old
      | some bytes => .ok (element.listOf bytes)
  | .scalar | .nested =>
      match source.map.set? name with
      | none => .ok old
      | some members => members.mapM (element.ofMember name)
  | .unsupported => .error (.unknownKind name element.name)

/- The array under a name. -/
def array
    (source : Source)
    (name : String)
    (element : Element)
    (length : Nat)
    (old : Element.Sized element.Value length) :
    Except CodecError (Element.Sized element.Value length) :=
  if length = 0 then .ok old
  else if element.shape ≠ .byte then
    .error (.arrayElement name element.name)
  else
    .ok (((source.map.register? name).bind
      (element.arrayOf? length)).getD old)

/- The bytes under a name, none if there is no register. -/
def bytes
    (source : Source)
    (name : String) : Bytes :=
  (source.map.register? name).getD []

end Source

------------------------------------------------------------
-- Tables
------------------------------------------------------------

/-
  One entry of a table.  Integers, texts and arrays must fit;
  other values are read over the one that was not given.
-/
def FieldType.readEntry :
    (type : FieldType) → String → Source →
      (type.Value → Reading type.Value) →
      Except CodecError type.Value
  | .int type, name, source, _ =>
      Element.integerOf type name (source.bytes name)
  | .text, name, source, _ =>
      Element.textOf name (source.bytes name)
  | .array element length, name, source, _ =>
      if element.shape ≠ .byte ∧ 0 < length then
        .error (.arrayElement name element.name)
      else element.arrayOf length name (source.bytes name)
  | type, _, _, decode =>
      Reading.result (decode type.default)

/- The key that the name of an entry spells. -/
def KeyType.read
    (key : KeyType)
    (field : String)
    (name : String) : Except CodecError key.Value :=
  match key.parse? name with
  | some value => .ok value
  | none => .error (.mapKey field name key.name)

/- The table of the named entries of a map. -/
def Source.table
    (source : Source)
    (field : String)
    (sorted : Bool)
    (key : KeyType)
    (value : FieldType)
    (decode :
      String → value.Value → Reading value.Value) :
    Except CodecError (Table sorted key value.Value) :=
  match value.kind with
  | .unsupported kind => .error (.mapValue field kind)
  | kind =>
      (source.map.namesOf kind).foldlM
        (fun table name => do
          let k ← key.read field name
          let item ← value.readEntry name source (decode name)
          return table.insert k item)
        Table.empty

------------------------------------------------------------
-- Fields
------------------------------------------------------------

mutual
/- Read the value under a name over an older one. -/
def FieldType.decode :
    (type : FieldType) → String → Source → type.Value →
      Reading type.Value
  | .int type, name, source, old =>
      Reading.orKeep old
        ((source.map.register? name).bind
          (Integer.decode? type))
  | .text, name, source, old =>
      Reading.orKeep old
        ((source.map.register? name).bind Text.decode?)
  | .bool, name, source, old =>
      Reading.orKeep old (source.map.flag? name)
  | .timestamp, name, source, old =>
      Reading.replace old (source.timestamp name old)
  | .float32, name, _, old =>
      (.error (.unknownKind name "f32"), old)
  | .float64, name, _, old =>
      (.error (.unknownKind name "f64"), old)
  | .char, name, _, old =>
      (.error (.unknownKind name "char"), old)
  | .slot kind, name, source, _ =>
      Reading.done
        (some (kind.load (source.binding name) source.map))
  | .list element, name, source, old =>
      Reading.replace old (source.items name element old)
  | .array element length, name, source, old =>
      Reading.replace old
        (source.array name element length old)
  | .document schema, name, source, old =>
      match source.child? name with
      | none => Reading.done old
      | some child => schema.decode child old
  | .table sorted key value, name, source, old =>
      match source.child? name with
      | none => Reading.done old
      | some child =>
          Reading.replace old
            (child.table name sorted key value
              fun entry => value.decode entry child)

/- Read the fields of a document over an older one. -/
def Schema.decode :
    (schema : Schema) → Source → schema.Document →
      Reading schema.Document
  | .nil, _, old => Reading.done old
  | .stored _ name type rest, source, (value, values) =>
      match type.decode name source value with
      | (.ok (), value) =>
          let (result, values) := rest.decode source values
          (result, (value, values))
      | (.error error, value) =>
          (.error error, (value, values))
  | .skipped _ _ rest, source, (value, values) =>
      let (result, values) := rest.decode source values
      (result, (value, values))
  | .context _ rest, source, (_, values) =>
      let (result, values) := rest.decode source values
      (result, (source.context, values))
end

------------------------------------------------------------
-- Documents
------------------------------------------------------------

/-
  Read a document at a path of a stored map over an older
  document.  A path that leads nowhere leads to nothing.
-/
def Schema.decodeDocument
    (schema : Schema)
    (map : CrdtMap)
    (context : Bytes)
    (root : Path)
    (old : schema.Document) : Reading schema.Document :=
  schema.decode
    ⟨(map.at? root.segments).getD .empty, root, context⟩ old

end CrdtDoc
