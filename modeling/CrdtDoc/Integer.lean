import CrdtDoc.Text

/-
  This file defines the integers of the ten sizes that a
  document can hold, and their decimal text.

  Key definitions include:
    * `IntType`
    * `Integer`
    * `Integer.ofInt?`
    * `Integer.add?`
    * `Integer.text`
    * `Integer.parse?`
    * `Integer.decode?`
-/

namespace CrdtDoc

------------------------------------------------------------
-- Integer Types
------------------------------------------------------------

/- A size of integers.  The two last of each sign are alike
  but for their names. -/
inductive IntType where
  | i8 | i16 | i32 | i64 | isize
  | u8 | u16 | u32 | u64 | usize
deriving DecidableEq, Repr

namespace IntType

/- The name a size is known by. -/
def name : IntType → String
  | .i8 => "i8"
  | .i16 => "i16"
  | .i32 => "i32"
  | .i64 => "i64"
  | .isize => "isize"
  | .u8 => "u8"
  | .u16 => "u16"
  | .u32 => "u32"
  | .u64 => "u64"
  | .usize => "usize"

/- The size of a name. -/
def ofName?
    (name : String) : Option IntType :=
  [IntType.i8, .i16, .i32, .i64, .isize, .u8, .u16, .u32, .u64,
    .usize].find? (·.name == name)

/- Does the size hold negative numbers? -/
def isSigned : IntType → Bool
  | .i8 | .i16 | .i32 | .i64 | .isize => true
  | .u8 | .u16 | .u32 | .u64 | .usize => false

/- The least number of a size. -/
def least : IntType → Int
  | .i8 => -128
  | .i16 => -32768
  | .i32 => -2147483648
  | .i64 | .isize => -9223372036854775808
  | .u8 | .u16 | .u32 | .u64 | .usize => 0

/- The greatest number of a size. -/
def greatest : IntType → Int
  | .i8 => 127
  | .i16 => 32767
  | .i32 => 2147483647
  | .i64 | .isize => 9223372036854775807
  | .u8 => 255
  | .u16 => 65535
  | .u32 => 4294967295
  | .u64 | .usize => 18446744073709551615

/- Zero has every size. -/
theorem least_le_zero
    (type : IntType) :
    type.least ≤ 0 := by
  cases type <;> decide

/- Zero has every size. -/
theorem zero_le_greatest
    (type : IntType) :
    0 ≤ type.greatest := by
  cases type <;> decide

end IntType

------------------------------------------------------------
-- Integers
------------------------------------------------------------

/- An integer within the range of its size. -/
@[ext]
structure Integer (type : IntType) where
  toInt : Int
  least_le : type.least ≤ toInt
  le_greatest : toInt ≤ type.greatest
deriving DecidableEq, Repr

namespace Integer

variable {type : IntType}

/- The integer of a size with a given value, if in range. -/
def ofInt?
    (type : IntType)
    (n : Int) : Option (Integer type) :=
  if h : type.least ≤ n ∧ n ≤ type.greatest then
    some ⟨n, h.1, h.2⟩
  else none

/- An integer is the one with its value. -/
theorem ofInt?_eq_some_iff
    {n : Int}
    {i : Integer type} :
    ofInt? type n = some i ↔ i.toInt = n := by
  unfold ofInt?
  constructor
  · intro h
    split at h
    · cases h
      rfl
    · cases h
  · intro h
    subst h
    rw [dif_pos ⟨i.least_le, i.le_greatest⟩]

/- There is no integer with a value out of range. -/
theorem ofInt?_eq_none_iff
    {n : Int} :
    ofInt? type n = none ↔
      ¬(type.least ≤ n ∧ n ≤ type.greatest) := by
  unfold ofInt?
  split
  · rename_i hRange
    exact iff_of_false (Option.some_ne_none _)
      (not_not_intro hRange)
  · rename_i hRange
    exact iff_of_true rfl hRange

/- Zero. -/
def zero : Integer type :=
  ⟨0, type.least_le_zero, type.zero_le_greatest⟩

instance : Inhabited (Integer type) :=
  ⟨zero⟩

/- The sum of two integers, if it is in range. -/
def add?
    (a b : Integer type) : Option (Integer type) :=
  ofInt? type (a.toInt + b.toInt)

/- Nothing is changed by adding to zero. -/
theorem zero_add?
    (i : Integer type) :
    add? zero i = some i := by
  rw [add?, ofInt?_eq_some_iff]
  exact (Int.zero_add i.toInt).symm

/- Nothing is changed by adding zero. -/
theorem add?_zero
    (i : Integer type) :
    add? i zero = some i := by
  rw [add?, ofInt?_eq_some_iff]
  exact (Int.add_zero i.toInt).symm

/- The byte that an integer of one byte is. -/
def toByte
    (i : Integer .u8) : UInt8 :=
  UInt8.ofNat i.toInt.toNat

/- The integer that a byte is. -/
def ofByte
    (byte : UInt8) : Integer .u8 :=
  ⟨byte.toNat, by simp [IntType.least],
    by
      have := byte.toNat_lt
      simp only [IntType.greatest]
      omega⟩

/- A byte is the byte of its integer. -/
theorem toByte_ofByte
    (byte : UInt8) :
    toByte (ofByte byte) = byte := by
  simp [toByte, ofByte]

/- An integer of one byte is the integer of its byte. -/
theorem ofByte_toByte
    (i : Integer .u8) :
    ofByte (toByte i) = i := by
  have hLow : 0 ≤ i.toInt := i.least_le
  have hHigh : i.toInt ≤ 255 := i.le_greatest
  have hNat : i.toInt.toNat < 256 := by omega
  ext
  simp [toByte, ofByte, Nat.mod_eq_of_lt hNat]
  omega

------------------------------------------------------------
-- Decimal Text
------------------------------------------------------------

/- The decimal text: no sign `+`, no leading zeros. -/
def text
    (i : Integer type) : String :=
  toString i.toInt

/- The value of decimal digits, read on from `n`. -/
def digitsFrom? : Nat → List Char → Option Nat
  | n, [] => some n
  | n, c :: rest =>
      if c.isDigit then
        digitsFrom? (n * 10 + (c.toNat - 48)) rest
      else none

/- The value of one or more decimal digits. -/
def digits? : List Char → Option Nat
  | [] => none
  | chars => digitsFrom? 0 chars

/-
  The number that a text spells: one or more decimal digits
  after at most one sign.  Leading zeros are free.
-/
def number? : List Char → Option Int
  | '+' :: rest => (digits? rest).map Int.ofNat
  | '-' :: rest => (digits? rest).map fun n => -(n : Int)
  | chars => (digits? chars).map Int.ofNat

/-
  The integer of a size that a text spells.  The sign `-`
  is refused where the size has no negative numbers, also
  in front of zero.
-/
def parse?
    (type : IntType)
    (text : String) : Option (Integer type) :=
  let chars := text.toList
  if chars.head? = some '-' ∧ ¬ type.isSigned then none
  else (number? chars).bind (ofInt? type)

/- The integer of a size that a stored text spells. -/
def decode?
    (type : IntType)
    (bytes : Bytes) : Option (Integer type) :=
  (Text.decode? bytes).bind (parse? type)

end Integer

end CrdtDoc
