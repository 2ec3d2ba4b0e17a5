import CrdtDoc.Entries
import CrdtDoc.Json.Parse

/-
  This file defines how JSON values are read as values of
  other types.

  At most 127 lists and objects may be read within each
  other.  A part that is passed over may go deeper, and may
  hold any number and any escaped code unit.

  Key definitions include:
    * `Json.Reader`
    * `Json.Reader.text`
    * `Json.Reader.integer`
    * `Json.Reader.bytes`
    * `Json.Reader.list`
    * `Json.Reader.entries`
    * `Json.Reader.record`
    * `Json.Reader.read?`
-/

namespace CrdtDoc

namespace Json

------------------------------------------------------------
-- Texts
------------------------------------------------------------

/- Is a code unit the first half of a character? -/
def isHigh
    (code : Nat) : Bool :=
  0xD800 ≤ code && code < 0xDC00

/- Is a code unit the second half of a character? -/
def isLow
    (code : Nat) : Bool :=
  0xDC00 ≤ code && code < 0xE000

/- The code of the character that two code units are. -/
def joined
    (high low : Nat) : Nat :=
  0x10000 + (high - 0xD800) * 0x400 + (low - 0xDC00)

/-
  The characters of a text.  Control characters must be
  escaped, and halves of characters stand in pairs.
-/
def chars? : List Piece → Option (List Char)
  | [] => some []
  | .raw char :: rest =>
      if char.toNat < 0x20 then none
      else (chars? rest).map (char :: ·)
  | .unit high :: .unit low :: rest =>
      if isHigh high && isLow low then
        (chars? rest).map (Char.ofNat (joined high low) :: ·)
      else if isHigh high || isLow high then none
      else
        (chars? (.unit low :: rest)).map
          (Char.ofNat high :: ·)
  | .unit code :: rest =>
      if isHigh code || isLow code then none
      else (chars? rest).map (Char.ofNat code :: ·)

/- The text that pieces make up. -/
def text?
    (pieces : List Piece) : Option String :=
  (chars? pieces).map String.ofList

/- The bytes of a code, also if it is half a character. -/
def codeBytes
    (code : Nat) : Bytes :=
  if isHigh code || isLow code then
    [UInt8.ofNat (0xE0 + code / 4096),
      UInt8.ofNat (0x80 + code / 64 % 64),
      UInt8.ofNat (0x80 + code % 64)]
  else Text.encode (String.singleton (Char.ofNat code))

/-
  The bytes of a text, which need be no text: any character
  may stand in it, and halves of characters may stand alone.
-/
def textBytes : List Piece → Bytes
  | [] => []
  | .raw char :: rest =>
      Text.encode (String.singleton char) ++ textBytes rest
  | .unit high :: .unit low :: rest =>
      if isHigh high && isLow low then
        codeBytes (joined high low) ++ textBytes rest
      else codeBytes high ++ textBytes (.unit low :: rest)
  | .unit code :: rest => codeBytes code ++ textBytes rest

------------------------------------------------------------
-- Ignored Values
------------------------------------------------------------

/- Does a text have no bare control character? -/
def isPlain
    (pieces : List Piece) : Bool :=
  pieces.all fun
    | .raw char => 0x20 ≤ char.toNat
    | .unit _ => true

mutual
/- Can a value be passed over? -/
def isIgnorable : Json → Bool
  | .text pieces => isPlain pieces
  | .list items => areIgnorable items
  | .object members => haveIgnorable members
  | _ => true

/- Can all items be passed over? -/
def areIgnorable : List Json → Bool
  | [] => true
  | item :: rest => isIgnorable item && areIgnorable rest

/- Can all members be passed over? -/
def haveIgnorable : List (List Piece × Json) → Bool
  | [] => true
  | (key, value) :: rest =>
      isPlain key && isIgnorable value && haveIgnorable rest
end

------------------------------------------------------------
-- Readers
------------------------------------------------------------

/-
  A reader takes the number of lists and objects that may
  still be entered, and a value.
-/
abbrev Reader (α : Type) : Type :=
  Nat → Json → Option α

namespace Reader

variable {α : Type}

/- A text. -/
def text : Reader String
  | _, .text pieces => text? pieces
  | _, _ => none

/- `true` or `false`. -/
def bool : Reader Bool
  | _, .bool value => some value
  | _, _ => none

/- An integer: without a fraction, an exponent, or `-0`. -/
def integer
    (type : IntType) : Reader (Integer type)
  | _, .number chars =>
      if chars = ['-', '0'] then none
      else Integer.parse? type (String.ofList chars)
  | _, _ => none

/- A byte. -/
def byte : Reader UInt8 :=
  fun depth json =>
    (integer .u8 depth json).map Integer.toByte

/- A value or `null`. -/
def optional
    (item : Reader α) : Reader (Option α)
  | _, .null => some none
  | depth, json => (item depth json).map some

/- A list. -/
def list
    (item : Reader α) : Reader (List α)
  | depth + 1, .list items => items.mapM (item depth)
  | _, _ => none

/- The bytes of a list. -/
def bytes : Reader Bytes :=
  list byte

/- The bytes of a list or of a text. -/
def bytesOrText : Reader Bytes
  | _, .text pieces => some (textBytes pieces)
  | depth, json => bytes depth json

/- An object from names to values.  The last one counts. -/
def entries
    (item : Reader α) : Reader (Entries α)
  | depth + 1, .object members => do
      let named ← members.mapM fun (key, value) => do
        return (← text? key, ← item depth value)
      return Entries.ofList named
  | _, _ => none

/- A pair, which is a list of two. -/
def pair
    {β : Type}
    (first : Reader α)
    (second : Reader β) : Reader (α × β)
  | depth + 1, .list [a, b] => do
      return (← first depth a, ← second depth b)
  | _, _ => none

/- The named parts of a record. -/
abbrev Parts : Type :=
  List (String × Json)

/- Put one member of an object to the named parts. -/
def addPart
    (names : List String)
    (parts : Parts)
    (member : List Piece × Json) : Option Parts := do
  let name ← text? member.1
  if names.contains name then
    if (parts.lookup name).isSome then none
    else return (name, member.2) :: parts
  else if isIgnorable member.2 then return parts
  else none

/-
  The parts of a record: of an object, which may have others
  too, or of a list, which may lack the last ones.
-/
def parts?
    (names : List String) : Json → Option Parts
  | .list items =>
      if items.length ≤ names.length then
        some (names.zip items)
      else none
  | .object members => members.foldlM (addPart names) []
  | _ => none

/- A record. -/
def record
    (names : List String)
    (build : Nat → Parts → Option α) : Reader α
  | depth + 1, json => (parts? names json).bind (build depth)
  | 0, _ => none

/- A part that a record must have. -/
def required
    (item : Reader α)
    (depth : Nat)
    (parts : Parts)
    (name : String) : Option α :=
  (parts.lookup name).bind (item depth)

/- A part that a record may lack. -/
def orElse
    (item : Reader α)
    (absent : α)
    (depth : Nat)
    (parts : Parts)
    (name : String) : Option α :=
  match parts.lookup name with
  | some json => item depth json
  | none => some absent

/- The value that a text spells. -/
def read?
    (reader : Reader α)
    (text : String) : Option α :=
  (parse? text).bind (reader 127)

end Reader

end Json

end CrdtDoc
