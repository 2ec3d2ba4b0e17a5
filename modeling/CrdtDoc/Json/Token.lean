import CrdtDoc.Json

/-
  This file defines the tokens of JSON and how a text is cut
  into them, one character after the other.  A run of letters,
  digits and signs is one word, and must be `null`, `true`,
  `false` or a number.

  Key definitions include:
    * `Json.isNumber`
    * `Json.Token`
    * `Json.Token.scan`
-/

namespace CrdtDoc

namespace Json

------------------------------------------------------------
-- Numbers
------------------------------------------------------------

/- Are these one or more digits? -/
def isDigits
    (chars : List Char) : Bool :=
  !chars.isEmpty && chars.all Char.isDigit

/- Can these end a number: nothing, or an exponent? -/
def isExponent : List Char → Bool
  | [] => true
  | mark :: rest =>
      (mark == 'e' || mark == 'E') &&
        match rest with
        | '+' :: digits => isDigits digits
        | '-' :: digits => isDigits digits
        | digits => isDigits digits

/- Can these follow the whole digits of a number? -/
def isFraction : List Char → Bool
  | '.' :: rest =>
      isDigits (rest.takeWhile Char.isDigit) &&
        isExponent (rest.dropWhile Char.isDigit)
  | rest => isExponent rest

/- Are these a number without a sign? -/
def isUnsigned : List Char → Bool
  | '0' :: rest => isFraction rest
  | digits =>
      isDigits (digits.takeWhile Char.isDigit) &&
        isFraction (digits.dropWhile Char.isDigit)

/- Are these a number? -/
def isNumber : List Char → Bool
  | '-' :: rest => isUnsigned rest
  | chars => isUnsigned chars

------------------------------------------------------------
-- Tokens
------------------------------------------------------------

/- A token of JSON. -/
inductive Token where
  | openList
  | closeList
  | openObject
  | closeObject
  | comma
  | colon
  | null
  | bool (value : Bool)
  | number (chars : List Char)
  | text (pieces : List Piece)
deriving DecidableEq, Repr

namespace Token

/- The token that a word is. -/
def ofWord?
    (word : List Char) : Option Token :=
  if word = "null".toList then some .null
  else if word = "true".toList then some (.bool true)
  else if word = "false".toList then some (.bool false)
  else if isNumber word then some (.number word)
  else none

/- The token that a mark is. -/
def ofMark? : Char → Option Token
  | '[' => some .openList
  | ']' => some .closeList
  | '\x7b' => some .openObject
  | '\x7d' => some .closeObject
  | ',' => some .comma
  | ':' => some .colon
  | _ => none

------------------------------------------------------------
-- Scanning
------------------------------------------------------------

/- Can a character stand in a word? -/
def isWordChar
    (char : Char) : Bool :=
  char.isAlphanum || char == '+' || char == '-' || char == '.'

/- Does a character only separate tokens? -/
def isBlank
    (char : Char) : Bool :=
  char == ' ' || char == '\n' || char == '\t' || char == '\x0d'

/- The code unit that one escaped character stands for. -/
def unescape? : Char → Option Nat
  | '"' => some 0x22
  | '\\' => some 0x5C
  | '/' => some 0x2F
  | 'b' => some 0x08
  | 't' => some 0x09
  | 'n' => some 0x0A
  | 'f' => some 0x0C
  | 'r' => some 0x0D
  | _ => none

/-
  Where a scanner stands: between tokens, in a word, in a
  text, behind a backslash, or in the digits of a code unit.
  What was read of the token is kept last one first.
-/
inductive Place where
  | between
  | word (chars : List Char)
  | text (pieces : List Piece)
  | escape (pieces : List Piece)
  | code (pieces : List Piece) (digits : Nat) (value : Nat)
deriving DecidableEq, Repr

/- A scanner, with the tokens read last one first. -/
structure Scanner where
  tokens : List Token
  place : Place

/- One character between tokens. -/
def Scanner.start
    (tokens : List Token)
    (char : Char) : Option Scanner :=
  if isBlank char then some ⟨tokens, .between⟩
  else if char = '"' then some ⟨tokens, .text []⟩
  else if isWordChar char then some ⟨tokens, .word [char]⟩
  else
    (ofMark? char).map fun token =>
      ⟨token :: tokens, .between⟩

/- The tokens after the word that was being read. -/
def Scanner.endWord
    (tokens : List Token)
    (chars : List Char) : Option (List Token) :=
  (ofWord? chars.reverse).map (· :: tokens)

/- One character more. -/
def Scanner.step
    (scanner : Scanner)
    (char : Char) : Option Scanner :=
  let ⟨tokens, place⟩ := scanner
  match place with
  | .between => start tokens char
  | .word chars =>
      if isWordChar char then
        some ⟨tokens, .word (char :: chars)⟩
      else (endWord tokens chars).bind (start · char)
  | .text pieces =>
      if char = '"' then
        some ⟨.text pieces.reverse :: tokens, .between⟩
      else if char = '\\' then some ⟨tokens, .escape pieces⟩
      else some ⟨tokens, .text (.raw char :: pieces)⟩
  | .escape pieces =>
      if char = 'u' then some ⟨tokens, .code pieces 3 0⟩
      else
        (unescape? char).map fun code =>
          ⟨tokens, .text (.unit code :: pieces)⟩
  | .code pieces digits value =>
      (Text.hexValue? char).map fun digit =>
        let value := value * 16 + digit
        match digits with
        | 0 => ⟨tokens, .text (.unit value :: pieces)⟩
        | digits + 1 => ⟨tokens, .code pieces digits value⟩

/- The tokens at the end, unless it is within a token. -/
def Scanner.finish
    (scanner : Scanner) : Option (List Token) :=
  match scanner.place with
  | .between => some scanner.tokens.reverse
  | .word chars =>
      (endWord scanner.tokens chars).map List.reverse
  | _ => none

/- The tokens of a text. -/
def scan
    (chars : List Char) : Option (List Token) :=
  (chars.foldlM Scanner.step ⟨[], .between⟩).bind
    Scanner.finish

end Token

end Json

end CrdtDoc
