import CrdtDoc.Element
import CrdtDoc.Handle
import CrdtDoc.Table

/-
  This file defines schemas: the fields of a document in
  their order, with their types, and the documents that a
  schema describes.

  A field is stored under a name of its own or not at all.
  A context field is not stored either: it keeps the causal
  context that the document was read with.

  Key definitions include:
    * `FieldType`
    * `FieldType.Value`
    * `FieldType.kind`
    * `Schema`
    * `Schema.Document`
    * `Schema.default`
-/

namespace CrdtDoc

------------------------------------------------------------
-- Types and Schemas
------------------------------------------------------------

mutual
/- The type of a field. -/
inductive FieldType where
  | int (type : IntType)
  | text
  | bool
  | timestamp
  | float32
  | float64
  | char
  | slot (kind : HandleKind)
  | list (element : Element)
  | array (element : Element) (length : Nat)
  | document (schema : Schema)
  | table
      (sorted : Bool)
      (key : KeyType)
      (value : FieldType)

/- The fields of a document. -/
inductive Schema where
  | nil
  | stored
      (field : String)
      (name : String)
      (type : FieldType)
      (rest : Schema)
  | skipped
      (field : String)
      (type : FieldType)
      (rest : Schema)
  | context
      (field : String)
      (rest : Schema)
end

------------------------------------------------------------
-- Values and Documents
------------------------------------------------------------

mutual
/- The values of a type. -/
def FieldType.Value : FieldType → Type
  | .int type => Integer type
  | .text => String
  | .bool => Bool
  | .timestamp => Timestamp
  | .float32 => Float32
  | .float64 => Float
  | .char => Char
  | .slot kind => Slot kind
  | .list element => List element.Value
  | .array element length =>
      Element.Sized element.Value length
  | .document schema => schema.Document
  | .table sorted key value => Table sorted key value.Value

/- The documents that a schema describes. -/
def Schema.Document : Schema → Type
  | .nil => Unit
  | .stored _ _ type rest => type.Value × rest.Document
  | .skipped _ type rest => type.Value × rest.Document
  | .context _ rest => Bytes × rest.Document
end

mutual
/- The value of a field that was not given. -/
def FieldType.default : (type : FieldType) → type.Value
  | .int _ => Integer.zero
  | .text => ""
  | .bool => false
  | .timestamp => Timestamp.epoch
  | .float32 => (0 : Float32)
  | .float64 => (0 : Float)
  | .char => '\x00'
  | .slot _ => none
  | .list _ => []
  | .array element length =>
      ⟨List.replicate length element.default,
        List.length_replicate⟩
  | .document schema => schema.default
  | .table _ _ _ => Table.empty

/- The document of which no field was given. -/
def Schema.default : (schema : Schema) → schema.Document
  | .nil => ()
  | .stored _ _ type rest => (type.default, rest.default)
  | .skipped _ type rest => (type.default, rest.default)
  | .context _ rest => ([], rest.default)
end

------------------------------------------------------------
-- Kinds
------------------------------------------------------------

/- The section of a map that a field is stored in, if any. -/
inductive FieldKind where
  | register
  | counter
  | set
  | flag
  | map
  | unsupported (name : String)
deriving DecidableEq, Repr

/- The section that a handle is stored in. -/
def HandleKind.fieldKind : HandleKind → FieldKind
  | .counter => .counter
  | .set => .set
  | .flag => .flag
  | .register => .register

/-
  The names of the entries in a section.  What has no
  section has no names.
-/
def CrdtMap.namesOf
    (map : CrdtMap) : FieldKind → List String
  | .register => Entries.names map.registers
  | .counter => Entries.names map.counters
  | .set => Entries.names map.sets
  | .flag => Entries.names map.flags
  | .map => Entries.names map.maps
  | .unsupported _ => []

namespace FieldType

/- The section that lists of a type are stored in. -/
def listKind
    (element : Element) : FieldKind :=
  match element.shape with
  | .byte => .register
  | .scalar => .set
  | .nested => .set
  | .unsupported => .unsupported element.name

/- The section that arrays of a type are stored in. -/
def arrayKind
    (element : Element)
    (length : Nat) : FieldKind :=
  if length = 0 ∨ element.shape = .byte then .register
  else .unsupported element.name

/- The section that values of a type are stored in. -/
def kind : FieldType → FieldKind
  | .int _ => .register
  | .text => .register
  | .bool => .flag
  | .timestamp => .register
  | .float32 => .unsupported "f32"
  | .float64 => .unsupported "f64"
  | .char => .unsupported "char"
  | .slot kind => kind.fieldKind
  | .list element => listKind element
  | .array element length => arrayKind element length
  | .document _ => .map
  | .table _ _ _ => .map

end FieldType

end CrdtDoc
