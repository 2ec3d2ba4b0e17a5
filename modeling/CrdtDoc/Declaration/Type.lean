import CrdtDoc.Declaration.Token
import CrdtDoc.Schema

/-
  This file defines how the types of fields are written in
  declarations, as far as they do not name other documents.

  Key definitions include:
    * `Element.ofTokens?`
    * `FieldType.ofElement`
    * `FieldType.ofText?`
-/

namespace CrdtDoc

open Declaration (Token)

namespace Element

/- The type of a name. -/
def ofName?
    (name : String) : Option Element :=
  match name with
  | "String" => some .text
  | "bool" => some .bool
  | "f32" => some .float32
  | "f64" => some .float64
  | "char" => some .char
  | name => (IntType.ofName? name).map .int

/-
  The type that tokens make up, if its lists and arrays are
  less deep than a bound.
-/
def ofTokens? : Nat → List Token → Option Element
  | _, [.word name] => ofName? name
  | depth + 1, .word "Vec" :: .mark '<' _ :: rest =>
      match rest.getLast? with
      | some (.mark '>' _) =>
          (ofTokens? depth rest.dropLast).map .list
      | _ => none
  | depth + 1, [.group .square tokens] =>
      match tokens.reverse with
      | .number length :: .mark ';' _ :: back => do
          let element ← ofTokens? depth back.reverse
          let length ← (String.ofList length).toNat?
          return .array element length
      | _ => none
  | _, _ => none

end Element

namespace FieldType

/- The type of fields that hold a single element. -/
def ofElement : Element → FieldType
  | .int type => .int type
  | .text => .text
  | .bool => .bool
  | .float32 => .float32
  | .float64 => .float64
  | .char => .char
  | .list element => .list element
  | .array element length => .array element length

/- The type that a text spells. -/
def ofText?
    (text : String) : Option FieldType := do
  match ← Token.scan text with
  | [.word "DateTime", .mark '<' _, .word "Utc", .mark '>' _] =>
      return .timestamp
  | [.word "Option", .mark '<' _, .word name, .mark '>' _] =>
      return .slot (← HandleKind.ofName? name)
  | tokens =>
      return ofElement (← Element.ofTokens? text.length tokens)

end FieldType

end CrdtDoc
