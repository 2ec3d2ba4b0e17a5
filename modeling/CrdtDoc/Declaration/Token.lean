import CrdtDoc.Declaration.Comment
import CrdtDoc.Text.Blank
import CrdtDoc.Text.Hex

/-
  This file defines the tokens of declarations, and how a
  text is cut into them.  Brackets and what stands between
  them make up one token.  Comments are passed over, but
  documentation stands for the attribute `doc`.

  Of literals, plain texts have a value, and numbers are
  kept as written; other ones are told apart from everything
  else and no more.  A mark is joined to the next one if
  nothing stands between them.

  Key definitions include:
    * `Declaration.Token`
    * `Declaration.Token.scan`
-/

namespace CrdtDoc

namespace Declaration

------------------------------------------------------------
-- Tokens
------------------------------------------------------------

/- The kinds of brackets. -/
inductive Bracket where
  | round
  | square
  | curly
deriving DecidableEq, Repr

/- A token of a declaration. -/
inductive Token where
  | word (name : String)
  | text (value : String)
  | number (chars : List Char)
  | literal
  | lifetime
  | mark (char : Char) (joined : Bool)
  | group (bracket : Bracket) (tokens : List Token)

namespace Token

------------------------------------------------------------
-- Characters
------------------------------------------------------------

/-
  Does a character only separate tokens?  Blanks do, and so
  do the marks that set the direction of writing.
-/
def isSeparator
    (char : Char) : Bool :=
  Text.isBlank char || char == '\u200e' || char == '\u200f'

/- Can a character begin a word?  All past ASCII can. -/
def isWordStart
    (char : Char) : Bool :=
  char.isAlpha || char == '_' ||
    (0x80 ≤ char.toNat && !isSeparator char)

/- Can a character go on with a word? -/
def isWordPart
    (char : Char) : Bool :=
  isWordStart char || char.isDigit

/- Is a character a mark of its own, apart from brackets? -/
def isMark
    (char : Char) : Bool :=
  "~!@#$%^&*-=+|;:,<.>/?\x27".toList.contains char

/- Is a character a bracket? -/
def isBracket
    (char : Char) : Bool :=
  "()[]\x7b\x7d".toList.contains char

/- Do some characters begin with a mark, not a comment? -/
def startsWithMark : List Char → Bool
  | '/' :: '/' :: _ => false
  | '/' :: '*' :: _ => false
  | char :: _ => isMark char
  | [] => false

------------------------------------------------------------
-- Literals
------------------------------------------------------------

/- What stands between quotes, and what follows them. -/
abbrev Quoted : Type :=
  List Char × List Char

/- One more character between quotes. -/
def Quoted.add
    (char : Char)
    (quoted : Quoted) : Quoted :=
  (char :: quoted.1, quoted.2)

/- The character of a code, if it has one. -/
def charOf?
    (code : Nat) : Option Char :=
  if code.isValidChar then some (Char.ofNat code) else none

/- The character that one escaped character stands for. -/
def unescape? : Char → Option Char
  | 'n' => some '\n'
  | 'r' => some '\x0d'
  | 't' => some '\t'
  | '0' => some '\x00'
  | '\\' => some '\\'
  | '\x27' => some '\x27'
  | '"' => some '"'
  | _ => none

/-
  Where a reader of a text stands: within it, past the end
  of an escaped line, or in the code of a character, some
  digits of which are read.
-/
inductive Place where
  | within
  | blanks
  | code (value : Nat) (digits : Nat)

/- The characters of a text, once its first quote is read. -/
def readText : Place → List Char → Option Quoted
  | _, [] => none
  | .code value digits, '\x7d' :: rest =>
      if digits = 0 then none
      else do
        let char ← charOf? value
        return (← readText .within rest).add char
  | .code value digits, '_' :: rest =>
      if digits = 0 then none
      else readText (.code value digits) rest
  | .code value digits, char :: rest => do
      let digit ← Text.hexValue? char
      if digits < 6 then
        readText (.code (value * 16 + digit) (digits + 1)) rest
      else none
  | .blanks, ' ' :: rest => readText .blanks rest
  | .blanks, '\t' :: rest => readText .blanks rest
  | .blanks, '\n' :: rest => readText .blanks rest
  | .blanks, '\x0d' :: '\n' :: rest => readText .blanks rest
  | _, '"' :: rest => some ([], rest)
  | _, '\\' :: '\n' :: rest => readText .blanks rest
  | _, '\\' :: '\x0d' :: '\n' :: rest => readText .blanks rest
  | _, '\\' :: 'u' :: '\x7b' :: rest => readText (.code 0 0) rest
  | _, '\\' :: 'x' :: high :: low :: rest => do
      let high ← Text.hexValue? high
      let low ← Text.hexValue? low
      if high < 8 then
        return (← readText .within rest).add
          (Char.ofNat (high * 16 + low))
      else none
  | _, '\\' :: char :: rest => do
      let char ← unescape? char
      return (← readText .within rest).add char
  | _, '\x0d' :: '\n' :: rest =>
      (readText .within rest).map (·.add '\n')
  | _, '\x0d' :: _ => none
  | _, char :: rest => (readText .within rest).map (·.add char)

/- The characters of a text without escapes. -/
def readRaw
    (hashes : Nat) : List Char → Option Quoted
  | [] => none
  | '\x0d' :: '\n' :: rest =>
      (readRaw hashes rest).map fun quoted =>
        (quoted.add '\n').add '\x0d'
  | '\x0d' :: _ => none
  | char :: rest =>
      if char = '"' ∧
          rest.take hashes = List.replicate hashes '#' then
        some ([], rest.drop hashes)
      else (readRaw hashes rest).map (·.add char)

/- A text without escapes, from the marks before its quote. -/
def readHashed
    (chars : List Char) : Option Quoted :=
  let hashes := (chars.takeWhile (· == '#')).length
  match chars.drop hashes with
  | '"' :: rest => readRaw hashes rest
  | _ => none

/- What follows a literal that ends with a given quote. -/
def afterQuote
    (quote : Char) : List Char → Option (List Char)
  | [] => none
  | '\\' :: _ :: rest => afterQuote quote rest
  | char :: rest =>
      if char = quote then some rest else afterQuote quote rest

/-
  What follows one character between single quotes, the
  first of which is read.  It may be a single quote itself.
-/
def afterChar : List Char → Option (List Char)
  | '\\' :: _ :: rest => afterQuote '\x27' rest
  | _ :: '\x27' :: rest => some rest
  | _ => none

/- What follows the name of a type behind a literal. -/
def afterSuffix
    (chars : List Char) : List Char :=
  match chars with
  | char :: _ =>
      if isWordStart char then chars.dropWhile isWordPart
      else chars
  | [] => []

/- A text, and what follows it. -/
def ofQuoted
    (quoted : Quoted) : Token × List Char :=
  (.text (String.ofList quoted.1), afterSuffix quoted.2)

/- A literal of another kind, and what follows it. -/
def ofRest
    (rest : List Char) : Token × List Char :=
  (.literal, afterSuffix rest)

------------------------------------------------------------
-- Single Tokens
------------------------------------------------------------

/- The names that cannot be raw. -/
def plainNames : List String :=
  ["_", "Self", "crate", "self", "super"]

/- A name, which may be raw, and what follows it. -/
def readName : List Char → Option (String × List Char)
  | 'r' :: '#' :: chars =>
      let name := String.ofList (chars.takeWhile isWordPart)
      if chars.head?.any isWordStart &&
          !plainNames.contains name then
        some ("r#" ++ name, chars.dropWhile isWordPart)
      else none
  | chars =>
      if chars.head?.any isWordStart then
        some (String.ofList (chars.takeWhile isWordPart),
          chars.dropWhile isWordPart)
      else none

/- The token that begins with a letter. -/
def ofLetter
    (chars : List Char) : Option (Token × List Char) :=
  match chars with
  | 'r' :: '"' :: _ | 'r' :: '#' :: '"' :: _
  | 'r' :: '#' :: '#' :: _ =>
      (readHashed (chars.drop 1)).map ofQuoted
  | 'b' :: 'r' :: '"' :: _ | 'b' :: 'r' :: '#' :: _
  | 'c' :: 'r' :: '"' :: _ | 'c' :: 'r' :: '#' :: _ =>
      (readHashed (chars.drop 2)).map fun quoted =>
        ofRest quoted.2
  | 'b' :: '"' :: rest | 'c' :: '"' :: rest =>
      (afterQuote '"' rest).map ofRest
  | 'b' :: '\x27' :: rest => (afterChar rest).map ofRest
  | _ =>
      (readName chars).map fun (name, rest) =>
        (.word name, rest)

/- A number, and what follows it. -/
def ofNumber
    (chars : List Char) : Token × List Char :=
  let whole := chars.takeWhile isWordPart
  match chars.dropWhile isWordPart with
  | '.' :: rest =>
      if rest.head?.any Char.isDigit then
        (.number (whole ++ '.' :: rest.takeWhile isWordPart),
          rest.dropWhile isWordPart)
      else (.number whole, '.' :: rest)
  | rest => (.number whole, rest)

/- Can a lifetime of some characters end before others? -/
def endsLifetime
    (chars rest : List Char) : Bool :=
  match rest with
  | '\x27' :: _ => false
  | '#' :: _ => chars.take 2 == ['r', '#']
  | _ => true

/-
  A lifetime, whose quote is read, and what follows it.  The
  quote stands alone if its name begins a literal instead.
-/
def ofLifetime
    (chars : List Char) : Option (Token × List Char) := do
  let (_, rest) ← readName chars
  if endsLifetime chars rest then
    match ← ofLetter chars with
    | (.word _, rest) => some (.lifetime, rest)
    | _ => some (.mark '\x27' true, chars)
  else none

/- The token that begins with a single quote. -/
def ofSingle
    (chars : List Char) : Option (Token × List Char) :=
  match afterChar chars with
  | some rest => some (ofRest rest)
  | none => ofLifetime chars

/- The first token, and what follows it. -/
def first? : List Char → Option (Token × List Char)
  | [] => none
  | '"' :: rest => (readText .within rest).map ofQuoted
  | '\x27' :: rest => ofSingle rest
  | char :: rest =>
      if isWordStart char then ofLetter (char :: rest)
      else if char.isDigit then
        some (ofNumber (char :: rest))
      else if isMark char then
        some (.mark char (startsWithMark rest), rest)
      else if isBracket char then some (.mark char false, rest)
      else none

/- The tokens that a comment stands for. -/
def ofComment : Comment.Kind → List Token
  | .plain => []
  | .outer => .mark '#' false :: documentation
  | .inner => .mark '#' false :: .mark '!' false :: documentation
where
  documentation : List Token :=
    [.mark '[' false, .word "doc", .mark '=' false, .literal,
      .mark ']' false]

/-
  The tokens of a text, brackets apart.  Each step takes one
  character at least, so that `steps` may be their number.
-/
def scanFlat : Nat → List Char → Option (List Token)
  | _, [] => some []
  | 0, _ => none
  | steps + 1, '/' :: '/' :: rest => do
      let comment ← Comment.line rest
      return ofComment comment.kind ++
        (← scanFlat steps comment.rest)
  | steps + 1, '/' :: '*' :: rest => do
      let comment ← Comment.block rest
      return ofComment comment.kind ++
        (← scanFlat steps comment.rest)
  | steps + 1, char :: rest =>
      if isSeparator char then scanFlat steps rest
      else do
        let (token, rest) ← first? (char :: rest)
        return token :: (← scanFlat steps rest)

------------------------------------------------------------
-- Groups
------------------------------------------------------------

/- The bracket that a mark opens. -/
def opened? : Char → Option Bracket
  | '(' => some .round
  | '[' => some .square
  | '\x7b' => some .curly
  | _ => none

/- The bracket that a mark closes. -/
def closed? : Char → Option Bracket
  | ')' => some .round
  | ']' => some .square
  | '\x7d' => some .curly
  | _ => none

/-
  Tokens within brackets that are open, innermost first.
  Each list has its last token first.
-/
structure Open where
  outer : List (Bracket × List Token)
  tokens : List Token

/- One token more. -/
def Open.step
    (state : Open)
    (token : Token) : Option Open :=
  match token with
  | .mark char joined =>
      match opened? char, closed? char, state.outer with
      | some bracket, _, outer =>
          some ⟨(bracket, state.tokens) :: outer, []⟩
      | none, some bracket, (opening, tokens) :: outer =>
          if bracket = opening then
            let group := group bracket state.tokens.reverse
            some ⟨outer, group :: tokens⟩
          else none
      | none, some _, [] => none
      | none, none, outer =>
          some ⟨outer, .mark char joined :: state.tokens⟩
  | token => some { state with tokens := token :: state.tokens }

/- The characters of a text after the mark of its order. -/
def afterOrderMark : List Char → List Char
  | '\ufeff' :: rest => rest
  | chars => chars

/- The tokens of a text. -/
def scan
    (text : String) : Option (List Token) := do
  let chars := afterOrderMark text.toList
  let flat ← scanFlat chars.length chars
  let state ← flat.foldlM Open.step ⟨[], []⟩
  if state.outer.isEmpty then return state.tokens.reverse
  else none

end Token

end Declaration

end CrdtDoc
