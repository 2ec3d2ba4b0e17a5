import CrdtDoc.Json.Token

/-
  This file defines how the tokens of JSON make up a value,
  one token after the other.

  Key definitions include:
    * `Json.Parser`
    * `Json.ofTokens?`
    * `Json.parse?`
-/

namespace CrdtDoc

namespace Json

------------------------------------------------------------
-- Parsers
------------------------------------------------------------

/-
  A list or object that is being read.  Its items are kept
  last one first.  An object has the key of its next member.
-/
inductive Frame where
  | list (items : List Json)
  | object
      (members : List (List Piece × Json))
      (key : List Piece)

/-
  What may come next: a value, a first item, a first key, a
  further key, the colon behind a key, or what follows a
  value.
-/
inductive Next where
  | value
  | firstItem
  | firstKey
  | key (members : List (List Piece × Json))
  | colon (members : List (List Piece × Json))
      (key : List Piece)
  | after (value : Json)

/- A parser, with the frames around it innermost first. -/
structure Parser where
  frames : List Frame
  next : Next

namespace Parser

/- The parser before any token. -/
def start : Parser :=
  ⟨[], .value⟩

/- A token where a value may begin. -/
def beginValue
    (frames : List Frame) : Token → Option Parser
  | .null => some ⟨frames, .after .null⟩
  | .bool value => some ⟨frames, .after (.bool value)⟩
  | .number chars => some ⟨frames, .after (.number chars)⟩
  | .text pieces => some ⟨frames, .after (.text pieces)⟩
  | .openList => some ⟨frames, .firstItem⟩
  | .openObject => some ⟨frames, .firstKey⟩
  | _ => none

/- A token where a key must stand. -/
def beginMember
    (frames : List Frame)
    (members : List (List Piece × Json)) :
    Token → Option Parser
  | .text key => some ⟨frames, .colon members key⟩
  | _ => none

/- A token behind a value. -/
def afterValue
    (frames : List Frame)
    (value : Json) : Token → Option Parser
  | .comma =>
      match frames with
      | .list items :: outer =>
          some ⟨.list (value :: items) :: outer, .value⟩
      | .object members key :: outer =>
          some ⟨outer, .key ((key, value) :: members)⟩
      | [] => none
  | .closeList =>
      match frames with
      | .list items :: outer =>
          some ⟨outer, .after (.list (value :: items).reverse)⟩
      | _ => none
  | .closeObject =>
      match frames with
      | .object members key :: outer =>
          let members := ((key, value) :: members).reverse
          some ⟨outer, .after (.object members)⟩
      | _ => none
  | _ => none

/- One token more. -/
def step
    (parser : Parser)
    (token : Token) : Option Parser :=
  let ⟨frames, next⟩ := parser
  match next with
  | .value => beginValue frames token
  | .firstItem =>
      match token with
      | .closeList => some ⟨frames, .after (.list [])⟩
      | token => beginValue (.list [] :: frames) token
  | .firstKey =>
      match token with
      | .closeObject => some ⟨frames, .after (.object [])⟩
      | token => beginMember frames [] token
  | .key members => beginMember frames members token
  | .colon members key =>
      match token with
      | .colon => some ⟨.object members key :: frames, .value⟩
      | _ => none
  | .after value => afterValue frames value token

/- The value at the end, unless something is unfinished. -/
def finish
    (parser : Parser) : Option Json :=
  match parser.frames, parser.next with
  | [], .after value => some value
  | _, _ => none

end Parser

------------------------------------------------------------
-- Values
------------------------------------------------------------

/- The value that tokens make up. -/
def ofTokens?
    (tokens : List Token) : Option Json :=
  (tokens.foldlM Parser.step Parser.start).bind Parser.finish

/- The value that a text spells. -/
def parse?
    (text : String) : Option Json :=
  (Token.scan text.toList).bind ofTokens?

end Json

end CrdtDoc
