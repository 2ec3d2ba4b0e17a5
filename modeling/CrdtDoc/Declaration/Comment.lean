/-
  This file defines the comments of declarations.  A comment
  goes to the end of its line, or up to a closing mark, and
  then it may hold other comments.

  Some comments document what follows them, and some what
  they stand in.  These are not passed over: each stands for
  an attribute.

  Key definitions include:
    * `Declaration.Comment`
    * `Declaration.Comment.Kind`
    * `Declaration.Comment.line`
    * `Declaration.Comment.block`
-/

namespace CrdtDoc

namespace Declaration

namespace Comment

/- What a comment is about. -/
inductive Kind where
  | plain
  | outer
  | inner
deriving DecidableEq, Repr

/- The kind of a comment that goes to the end of its line. -/
def Kind.ofLine : List Char → Kind
  | '/' :: '/' :: _ => .plain
  | '/' :: _ => .outer
  | '!' :: _ => .inner
  | _ => .plain

/- The kind of a comment that is closed by a mark. -/
def Kind.ofBlock : List Char → Kind
  | '*' :: '*' :: _ => .plain
  | '*' :: '/' :: _ => .plain
  | '*' :: _ => .outer
  | '!' :: _ => .inner
  | _ => .plain

/- What follows a line.  The line feed still does. -/
def afterLine
    (chars : List Char) : List Char :=
  chars.dropWhile (· != '\n')

/-
  What follows the mark that closes a comment, within which
  `depth` others are open.
-/
def afterBlock : Nat → List Char → Option (List Char)
  | 0, '*' :: '/' :: rest => some rest
  | depth + 1, '*' :: '/' :: rest => afterBlock depth rest
  | depth, '/' :: '*' :: rest => afterBlock (depth + 1) rest
  | depth, _ :: rest => afterBlock depth rest
  | _, [] => none

/- Does every return stand before a line feed? -/
def pairsReturns : List Char → Bool
  | '\x0d' :: '\n' :: rest => pairsReturns rest
  | '\x0d' :: _ => false
  | _ :: rest => pairsReturns rest
  | [] => true

end Comment

/- A comment, and what follows it. -/
structure Comment where
  kind : Comment.Kind
  rest : List Char

namespace Comment

/- What stands before the rest of some characters. -/
def textBefore
    (rest chars : List Char) : List Char :=
  chars.take (chars.length - rest.length)

/-
  A comment with its text.  In the text of documentation,
  every return stands before a line feed.
-/
def checked
    (kind : Kind)
    (text rest : List Char) : Option Comment :=
  if kind = .plain || pairsReturns text then some ⟨kind, rest⟩
  else none

/- The comment on the rest of a line. -/
def line
    (chars : List Char) : Option Comment :=
  let rest := afterLine chars
  checked (.ofLine chars)
    (textBefore (rest.drop 1) chars) rest

/- The comment up to its closing mark. -/
def block
    (chars : List Char) : Option Comment := do
  let rest ← afterBlock 0 chars
  checked (.ofBlock chars) (textBefore rest chars) rest

end Comment

end Declaration

end CrdtDoc
