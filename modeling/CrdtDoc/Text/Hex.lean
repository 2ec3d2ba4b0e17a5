/-
  This file defines hexadecimal digits.

  Key definitions include:
    * `Text.hexDigit`
    * `Text.hexValue?`
-/

namespace CrdtDoc

namespace Text

/- The lower-case digit of a value below 16. -/
def hexDigit
    (value : Nat) : Char :=
  Char.ofNat (if value < 10 then 48 + value else 87 + value)

/- The value of a digit in either case. -/
def hexValue?
    (char : Char) : Option Nat :=
  if '0' ≤ char ∧ char ≤ '9' then some (char.toNat - 48)
  else if 'a' ≤ char ∧ char ≤ 'f' then some (char.toNat - 87)
  else if 'A' ≤ char ∧ char ≤ 'F' then some (char.toNat - 55)
  else none

/- A digit has the value that it is the digit of. -/
theorem hexValue?_hexDigit
    {value : Nat}
    (hValue : value < 16) :
    hexValue? (hexDigit value) = some value := by
  have hAll :
      ∀ value < 16, hexValue? (hexDigit value) = some value := by
    decide
  exact hAll value hValue

end Text

end CrdtDoc
