import CrdtDoc.Text.Hidden

/-
  This file defines texts between quotes, in which all
  characters can be told apart: quotes, backslashes and
  characters that show nothing of their own are escaped.

  Key definitions include:
    * `Text.quoted`
-/

namespace CrdtDoc

namespace Text

/- The code of a character, in hexadecimal digits. -/
def escapedCode
    (char : Char) : List Char :=
  "\\u\x7b".toList ++ Nat.toDigits 16 char.toNat ++ ['\x7d']

/- A character between quotes. -/
def quotedChar
    (char : Char) : List Char :=
  match char with
  | '\x00' => ['\\', '0']
  | '\t' => ['\\', 't']
  | '\x0d' => ['\\', 'r']
  | '\n' => ['\\', 'n']
  | '\\' => ['\\', '\\']
  | '"' => ['\\', '"']
  | char => if isHidden char then escapedCode char else [char]

/- A text between quotes. -/
def quoted
    (text : String) : String :=
  String.ofList
    ('"' :: text.toList.flatMap quotedChar ++ ['"'])

end Text

end CrdtDoc
