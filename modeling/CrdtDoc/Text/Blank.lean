/-
  This file lists the blank characters: those with the
  property White_Space.  The blanks of the core library are
  among them.

  Key definitions include:
    * `Text.blankRanges`
    * `Text.isBlank`
-/

namespace CrdtDoc

namespace Text

/- The ranges of blank characters, ascending. -/
def blankRanges : List (Nat × Nat) :=
  [(0x9, 0xD), (0x20, 0x20), (0x85, 0x85), (0xA0, 0xA0),
    (0x1680, 0x1680), (0x2000, 0x200A), (0x2028, 0x2029),
    (0x202F, 0x202F), (0x205F, 0x205F), (0x3000, 0x3000)]

/- Is a character blank? -/
def isBlank
    (char : Char) : Bool :=
  blankRanges.any fun (first, last) =>
    first ≤ char.toNat && char.toNat ≤ last

/- The blanks of the core library are blank. -/
theorem isBlank_of_isWhitespace
    {char : Char}
    (hBlank : char.isWhitespace) :
    isBlank char := by
  simp only [Char.isWhitespace, Bool.or_eq_true,
    decide_eq_true_eq] at hBlank
  rcases hBlank with ((hEq | hEq) | hEq) | hEq <;>
    · subst hEq
      decide

/- Each range ends before all later ones begin. -/
theorem pairwise_blankRanges :
    blankRanges.Pairwise fun a b => a.2 < b.1 := by
  decide

end Text

end CrdtDoc
