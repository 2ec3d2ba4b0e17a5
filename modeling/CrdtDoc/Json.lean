import CrdtDoc.Integer
import CrdtDoc.Text.Hex

/-
  This file defines JSON values and their compact text.

  Numbers and texts are kept as they are written, since what
  they may be depends on what they are read as.  A text is a
  list of pieces: characters that stand for themselves, and
  escaped code units of 16 bits.

  Key definitions include:
    * `Json`
    * `Json.Piece`
    * `Json.quote`
    * `Json.render`
-/

namespace CrdtDoc

------------------------------------------------------------
-- Values
------------------------------------------------------------

/- A piece of a text. -/
inductive Json.Piece where
  | raw (char : Char)
  | unit (code : Nat)
deriving DecidableEq, Repr

/- A JSON value. -/
inductive Json where
  | null
  | bool (value : Bool)
  | number (chars : List Char)
  | text (pieces : List Json.Piece)
  | list (items : List Json)
  | object (members : List (List Json.Piece × Json))
deriving Repr

namespace Json

------------------------------------------------------------
-- Plain Values
------------------------------------------------------------

/- A quote or a backslash ends or escapes a text. -/
def isSpecial
    (char : Char) : Bool :=
  char.toNat < 0x20 || char == '"' || char == '\\'

/- A character of a text, escaped where it has to be. -/
def Piece.ofChar
    (char : Char) : Piece :=
  if isSpecial char then .unit char.toNat else .raw char

/- The pieces of a text. -/
def quote
    (text : String) : List Piece :=
  text.toList.map Piece.ofChar

/- The value of a text. -/
def ofText
    (text : String) : Json :=
  .text (quote text)

/- The value of an integer. -/
def ofInteger
    {type : IntType}
    (i : Integer type) : Json :=
  .number (Integer.text i).toList

/- The value of a byte. -/
def ofByte
    (byte : UInt8) : Json :=
  ofInteger (Integer.ofByte byte)

/- The value of a byte string: the list of its bytes. -/
def ofBytes
    (bytes : Bytes) : Json :=
  .list (bytes.map ofByte)

/- The value of something that may be absent. -/
def ofOption
    {α : Type}
    (write : α → Json) : Option α → Json
  | some value => write value
  | none => .null

/- The value of a record with named parts. -/
def ofFields
    (fields : List (String × Json)) : Json :=
  .object (fields.map fun (name, value) => (quote name, value))

------------------------------------------------------------
-- Compact Text
------------------------------------------------------------

/- A code unit as four hexadecimal digits. -/
def hexDigits
    (code : Nat) : List Char :=
  [Text.hexDigit (code / 4096 % 16),
    Text.hexDigit (code / 256 % 16),
    Text.hexDigit (code / 16 % 16), Text.hexDigit (code % 16)]

/- What follows the backslash of a code unit. -/
def escape
    (code : Nat) : List Char :=
  match code with
  | 0x22 => ['"']
  | 0x5C => ['\\']
  | 0x08 => ['b']
  | 0x09 => ['t']
  | 0x0A => ['n']
  | 0x0C => ['f']
  | 0x0D => ['r']
  | code => 'u' :: hexDigits code

/- A piece as written. -/
def Piece.render : Piece → List Char
  | .raw char => [char]
  | .unit code => '\\' :: escape code

/- A text as written, between quotes. -/
def renderText
    (pieces : List Piece) : List Char :=
  '"' :: pieces.flatMap Piece.render ++ ['"']

mutual
/- A value as written, without any blanks. -/
def renderChars : Json → List Char
  | .null => "null".toList
  | .bool true => "true".toList
  | .bool false => "false".toList
  | .number chars => chars
  | .text pieces => renderText pieces
  | .list [] => ['[', ']']
  | .list (first :: rest) =>
      '[' :: renderChars first ++ renderItems rest ++ [']']
  | .object [] => ['\x7b', '\x7d']
  | .object ((key, value) :: rest) =>
      '\x7b' :: renderText key ++ ':' :: renderChars value ++
        renderMembers rest ++ ['\x7d']

/- Items after the first one. -/
def renderItems : List Json → List Char
  | [] => []
  | item :: rest =>
      ',' :: renderChars item ++ renderItems rest

/- Members after the first one. -/
def renderMembers : List (List Piece × Json) → List Char
  | [] => []
  | (key, value) :: rest =>
      ',' :: renderText key ++ ':' :: renderChars value ++
        renderMembers rest
end

/- The compact text of a value. -/
def render
    (json : Json) : String :=
  String.ofList (renderChars json)

end Json

end CrdtDoc
