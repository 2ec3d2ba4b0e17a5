import CrdtDoc.CodecError
import CrdtDoc.Integer

/-
  This file defines the types of the elements of lists and
  arrays, and the members of a stored set that stand for
  elements.

  Bytes make up one register, other integers and texts are
  one member each, and a list or array of bytes is a member
  as a whole.  Everything else has no stored form.

  Key definitions include:
    * `Element`
    * `Element.Value`
    * `Element.shape`
    * `Element.toMember`
    * `Element.ofMember`
    * `Element.bytes`
    * `Element.arrayOf?`
-/

namespace CrdtDoc

------------------------------------------------------------
-- Types
------------------------------------------------------------

/- The type of an element. -/
inductive Element where
  | int (type : IntType)
  | text
  | bool
  | float32
  | float64
  | char
  | list (element : Element)
  | array (element : Element) (length : Nat)
deriving DecidableEq, Repr

/- How elements of a type are stored. -/
inductive Shape where
  | byte
  | scalar
  | nested
  | unsupported
deriving DecidableEq, Repr

namespace Element

/- The name of a type in error messages. -/
def name : Element → String
  | .int type => type.name
  | .text => "String"
  | .bool => "bool"
  | .float32 => "f32"
  | .float64 => "f64"
  | .char => "char"
  | .list _ => "Vec"
  | .array _ _ => "array"

/- How elements of a type are stored. -/
def shape : Element → Shape
  | .int .u8 => .byte
  | .int _ => .scalar
  | .text => .scalar
  | .bool => .unsupported
  | .float32 => .unsupported
  | .float64 => .unsupported
  | .char => .unsupported
  | .list _ => .nested
  | .array _ _ => .nested

/- Lists of a given length. -/
abbrev Sized (α : Type) (length : Nat) : Type :=
  { items : List α // items.length = length }

/- The elements of a type. -/
def Value : Element → Type
  | .int type => Integer type
  | .text => String
  | .bool => Bool
  | .float32 => Float32
  | .float64 => Float
  | .char => Char
  | .list element => List element.Value
  | .array element length => Sized element.Value length

/- The value of an element that was not given. -/
def default : (element : Element) → element.Value
  | .int _ => Integer.zero
  | .text => ""
  | .bool => false
  | .float32 => (0 : Float32)
  | .float64 => (0 : Float)
  | .char => '\x00'
  | .list _ => []
  | .array element length =>
      ⟨List.replicate length element.default,
        List.length_replicate⟩

------------------------------------------------------------
-- Bytes
------------------------------------------------------------

/- The byte that an element is. -/
def toByte? : (element : Element) → element.Value → Option UInt8
  | .int .u8, value => some (Integer.toByte value)
  | _, _ => none

/- The element that a byte is. -/
def ofByte? : (element : Element) → UInt8 → Option element.Value
  | .int .u8, byte => some (Integer.ofByte byte)
  | _, _ => none

/- The bytes that elements are. -/
def bytes
    (element : Element)
    (items : List element.Value) : Bytes :=
  items.filterMap element.toByte?

/- The elements that bytes are. -/
def listOf
    (element : Element)
    (bytes : Bytes) : List element.Value :=
  bytes.filterMap element.ofByte?

/- The array that bytes are, if there are as many. -/
def arrayOf?
    (element : Element)
    (length : Nat)
    (bytes : Bytes) : Option (Sized element.Value length) :=
  if h : bytes.length = length then
    some
      ⟨bytes.map fun byte =>
          (element.ofByte? byte).getD element.default,
        by simp [h]⟩
  else none

------------------------------------------------------------
-- Members
------------------------------------------------------------

/- The member that a list or array of bytes is. -/
def nestedMember
    (element : Element)
    (field : String)
    (items : List element.Value) : Except CodecError Bytes :=
  if element.shape = .byte then .ok (element.bytes items)
  else .error (.nestedElement field element.name)

/- The member of a set that stands for an element. -/
def toMember :
    (element : Element) → String → element.Value →
      Except CodecError Bytes
  | .int .u8, _, value => .ok [Integer.toByte value]
  | .int _, _, value => .ok (Text.encode (Integer.text value))
  | .text, _, value => .ok (Text.encode value)
  | .bool, field, _ => .error (.unexpectedKind field "bool")
  | .float32, field, _ => .error (.unexpectedKind field "f32")
  | .float64, field, _ => .error (.unexpectedKind field "f64")
  | .char, field, _ => .error (.unexpectedKind field "char")
  | .list element, field, items =>
      element.nestedMember field items
  | .array element _, field, items =>
      element.nestedMember field items.val

/- The integer that stored bytes spell. -/
def integerOf
    (type : IntType)
    (field : String)
    (bytes : Bytes) : Except CodecError (Integer type) :=
  match Integer.decode? type bytes with
  | some value => .ok value
  | none => .error (.invalidInteger field bytes)

/- The text that stored bytes spell. -/
def textOf
    (field : String)
    (bytes : Bytes) : Except CodecError String :=
  match Text.decode? bytes with
  | some value => .ok value
  | none => .error (.invalidText field)

/- The array that stored bytes are. -/
def arrayOf
    (element : Element)
    (length : Nat)
    (field : String)
    (bytes : Bytes) :
    Except CodecError (Sized element.Value length) :=
  match element.arrayOf? length bytes with
  | some items => .ok items
  | none => .error (.arrayLength field length bytes.length)

/- The element that a member of a set stands for. -/
def ofMember :
    (element : Element) → String → Bytes →
      Except CodecError element.Value
  | .int .u8, field, member =>
      match member with
      | [byte] => .ok (Integer.ofByte byte)
      | _ => .error (.arrayLength field 1 member.length)
  | .int type, field, member => integerOf type field member
  | .text, field, member => textOf field member
  | .bool, field, _ => .error (.unknownKind field "bool")
  | .float32, field, _ => .error (.unknownKind field "f32")
  | .float64, field, _ => .error (.unknownKind field "f64")
  | .char, field, _ => .error (.unknownKind field "char")
  | .list element, field, member =>
      if element.shape = .byte then .ok (element.listOf member)
      else .error (.nestedElement field element.name)
  | .array element length, field, member =>
      if element.shape = .byte then
        element.arrayOf length field member
      else .error (.nestedElement field element.name)

end Element

end CrdtDoc
