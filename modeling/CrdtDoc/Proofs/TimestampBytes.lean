import CrdtDoc.Timestamp
import Mathlib.Algebra.Group.Nat.Defs

/-
  The stored form of a point in time is read as the point in
  time that it was made of, if its numbers name it.

  Key definitions include:
    * `Timestamp.ofUnix`

  Main declarations:
    * `Bytes.ofBigEndian_bigEndian`
    * `Bytes.signed_unsigned`
    * `Timestamp.ofUnix_eq_ok_iff`
    * `Timestamp.ofBytes_toBytes_eq_ok_iff`
    * `Timestamp.ofBytes_toBytes_of_not`
-/

------------------------------------------------------------
-- Big-Endian Numbers
------------------------------------------------------------

namespace CrdtDoc

namespace Bytes

/- One more byte is the lowest one. -/
theorem ofBigEndian_append_byte
    (bytes : Bytes)
    (byte : UInt8) :
    ofBigEndian (bytes ++ [byte]) =
      ofBigEndian bytes * 256 + byte.toNat := by
  simp [ofBigEndian]

/- The bytes of a number spell it, as far as it fits. -/
theorem ofBigEndian_bigEndian
    (width n : Nat) :
    ofBigEndian (bigEndian width n) = n % 256 ^ width := by
  induction width generalizing n with
  | zero => simp [bigEndian, ofBigEndian, Nat.mod_one]
  | succ width ih =>
      have hSplit :
          n % 256 ^ (width + 1) =
            n % 256 + 256 * (n / 256 % 256 ^ width) := by
        rw [Nat.pow_succ', Nat.mod_mul]
      rw [bigEndian, ofBigEndian_append_byte, ih, hSplit,
        UInt8.toNat_ofNat']
      omega

/- A number in the middle of its range is found again. -/
theorem signed_unsigned
    {modulus : Nat}
    {n : Int}
    (hLow : -((modulus : Int) / 2) ≤ n)
    (hHigh : n < ((modulus : Int) + 1) / 2) :
    signed modulus (unsigned modulus n) = n := by
  have hPos : (0 : Int) < modulus := by
    omega
  have hNonneg : 0 ≤ n % (modulus : Int) :=
    Int.emod_nonneg n (by omega)
  unfold signed unsigned
  rw [Int.toNat_of_nonneg hNonneg, Int.emod_bmod]
  exact Int.bmod_eq_of_le hLow hHigh

end Bytes

------------------------------------------------------------
-- Points in Time
------------------------------------------------------------

namespace Timestamp

/- The seconds of a point in time fit into eight bytes. -/
theorem signed_unsigned_seconds
    (t : Timestamp) :
    Bytes.signed wordCount
        (Bytes.unsigned wordCount
          (t.seconds + yearOneToUnix)) =
      t.seconds + yearOneToUnix := by
  have hCalendar := t.inCalendar
  simp only [InCalendar, firstSecond, lastSecond] at hCalendar
  apply Bytes.signed_unsigned
  · simp only [wordCount, yearOneToUnix]
    omega
  · simp only [wordCount, yearOneToUnix]
    omega

/- What stands for the seconds fits into eight bytes. -/
theorem unsigned_lt_wordCount
    (n : Int) :
    Bytes.unsigned wordCount n < 256 ^ 8 := by
  have hLess : n % (wordCount : Int) < wordCount :=
    Int.emod_lt_of_pos n (by decide)
  have hNonneg : 0 ≤ n % (wordCount : Int) :=
    Int.emod_nonneg n (by decide)
  have hPower : (256 ^ 8 : Nat) = wordCount := by
    decide
  unfold Bytes.unsigned
  omega

/- The nanoseconds of a point in time fit into four bytes. -/
theorem nanos_lt_word
    (t : Timestamp) :
    t.nanos < 256 ^ 4 := by
  have hNanos := t.nanos_lt
  omega

/- The point in time that two numbers name, if any. -/
def ofUnix
    (seconds : Int)
    (nanos : Nat) : Except Malformed Timestamp :=
  match ofUnix? seconds nanos with
  | some t => .ok t
  | none => .error .outOfRange

/- A point in time is the one that its numbers name. -/
theorem ofUnix_eq_ok_iff
    {seconds : Int}
    {nanos : Nat}
    {t : Timestamp} :
    ofUnix seconds nanos = .ok t ↔
      t.seconds = seconds ∧ t.nanos = nanos ∧
      t.IsRegular := by
  rw [← ofUnix?_eq_some_iff, ofUnix]
  cases ofUnix? seconds nanos <;> simp

/- The numbers of a point in time are in its stored form. -/
theorem ofBytes_toBytes_eq
    (t : Timestamp) :
    ofBytes t.toBytes = ofUnix t.seconds t.nanos := by
  let seconds :=
    Bytes.unsigned wordCount (t.seconds + yearOneToUnix)
  let body :=
    Bytes.bigEndian 8 seconds ++
      Bytes.bigEndian 4 t.nanos ++ utcOffset
  have hBytes : t.toBytes = 1 :: body := rfl
  have hFirst : (Bytes.bigEndian 8 seconds).length = 8 :=
    Bytes.length_bigEndian 8 seconds
  have hSecond : (Bytes.bigEndian 4 t.nanos).length = 4 :=
    Bytes.length_bigEndian 4 t.nanos
  have hLength : body.length = 14 := by
    simp [body, hFirst, hSecond, utcOffset]
  have hSeconds : body.take 8 = Bytes.bigEndian 8 seconds := by
    simp [body, List.append_assoc, hFirst]
  have hNanos :
      (body.drop 8).take 4 = Bytes.bigEndian 4 t.nanos := by
    simp [body, List.append_assoc, hFirst, hSecond]
  have hRead :
      Bytes.ofBigEndian (body.take 8) = seconds := by
    rw [hSeconds, Bytes.ofBigEndian_bigEndian]
    exact Nat.mod_eq_of_lt (unsigned_lt_wordCount _)
  have hReadNanos :
      Bytes.ofBigEndian ((body.drop 8).take 4) =
        t.nanos := by
    rw [hNanos, Bytes.ofBigEndian_bigEndian]
    exact Nat.mod_eq_of_lt t.nanos_lt_word
  have hUnix :
      Bytes.signed wordCount seconds - yearOneToUnix =
        t.seconds := by
    rw [t.signed_unsigned_seconds]
    omega
  rw [hBytes, ofBytes]
  simp only [lengthOf?, hLength, hRead, hReadNanos, hUnix]
  rfl

/-
  A point in time is found again in its stored form if its
  numbers name it, and nothing is found otherwise.
-/
theorem ofBytes_toBytes_eq_ok_iff
    {t new : Timestamp} :
    ofBytes t.toBytes = .ok new ↔
      new = t ∧ t.IsRegular := by
  rw [ofBytes_toBytes_eq, ofUnix_eq_ok_iff]
  constructor
  · rintro ⟨hSeconds, hNanos, hRegular⟩
    have hSame := Timestamp.ext hSeconds hNanos
    exact ⟨hSame, hSame ▸ hRegular⟩
  · rintro ⟨rfl, hRegular⟩
    exact ⟨rfl, rfl, hRegular⟩

/- A leap second where no minute ends is out of range. -/
theorem ofBytes_toBytes_of_not
    {t : Timestamp}
    (hRegular : ¬t.IsRegular) :
    ofBytes t.toBytes = .error .outOfRange := by
  have hNone : ofUnix? t.seconds t.nanos = none :=
    dif_neg hRegular
  rw [ofBytes_toBytes_eq, ofUnix, hNone]

end Timestamp

end CrdtDoc
