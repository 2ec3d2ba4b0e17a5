/-
  This file defines byte strings, their order, and the
  big-endian numbers that stand inside them.

  Key definitions include:
    * `Bytes`
    * `Bytes.bigEndian`
    * `Bytes.ofBigEndian`
    * `Bytes.unsigned`
    * `Bytes.signed`
-/

namespace CrdtDoc

------------------------------------------------------------
-- Byte Strings
------------------------------------------------------------

/-
  A byte string.  The order `<` of lists compares byte
  strings by their first different byte, and puts a proper
  start of a string before the string.
-/
abbrev Bytes :=
  List UInt8

namespace Bytes

------------------------------------------------------------
-- Big-Endian Numbers
------------------------------------------------------------

/- The lowest `width` bytes of a number, highest first. -/
def bigEndian : Nat → Nat → Bytes
  | 0, _ => []
  | width + 1, n =>
      bigEndian width (n / 256) ++ [UInt8.ofNat n]

/- The number that a byte string spells, highest first. -/
def ofBigEndian
    (bytes : Bytes) : Nat :=
  bytes.foldl (fun n byte => n * 256 + byte.toNat) 0

/-
  The number below `modulus` that stands for `n`, which may
  be negative.
-/
def unsigned
    (modulus : Nat)
    (n : Int) : Nat :=
  (n % modulus).toNat

/- The number nearest to zero that `n` stands for. -/
def signed
    (modulus : Nat)
    (n : Nat) : Int :=
  Int.bmod n modulus

/- Each number has the bytes that it is asked for. -/
theorem length_bigEndian
    (width n : Nat) :
    (bigEndian width n).length = width := by
  induction width generalizing n with
  | zero => rfl
  | succ width ih => simp [bigEndian, ih]

end Bytes

end CrdtDoc
