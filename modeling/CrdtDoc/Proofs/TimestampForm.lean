import CrdtDoc.Integer
import CrdtDoc.Proofs.TimestampBytes
import Mathlib.Data.List.Induction

/-
  This file shows which bytes are stored forms of points in
  time, and what is read from them.

  Writing adds seconds of 64 bits, and reading cuts bytes in
  front of their end.  Both could stop for good, if the sum
  were out of range or the bytes too short.  They never do.

  Key definitions include:
    * `Bytes.cut?`
    * `Timestamp.write?`
    * `Timestamp.read?`
    * `Timestamp.IsAccepted`
    * `Timestamp.IsSpelledBy`

  Main declarations:
    * `Bytes.bigEndian_ofBigEndian`
    * `Timestamp.write?_eq_some`
    * `Timestamp.read?_eq_some`
    * `Timestamp.ofBytes_eq_ok_iff`
    * `Timestamp.stored_form_exact`
-/

------------------------------------------------------------
-- Big-Endian Numbers
------------------------------------------------------------

namespace CrdtDoc

namespace Bytes

/- The bytes of a number that they spell are the same. -/
theorem bigEndian_ofBigEndian
    (bytes : Bytes) :
    bigEndian bytes.length (ofBigEndian bytes) = bytes := by
  induction bytes using List.reverseRecOn with
  | nil => rfl
  | append_singleton front byte ih =>
      have hLess : byte.toNat < 256 := byte.toNat_lt
      have hHigh :
          (ofBigEndian front * 256 + byte.toNat) / 256 =
            ofBigEndian front := by
        omega
      have hLow :
          UInt8.ofNat
              (ofBigEndian front * 256 + byte.toNat) =
            byte := by
        apply UInt8.toNat_inj.mp
        rw [UInt8.toNat_ofNat']
        omega
      rw [List.length_append, List.length_singleton, bigEndian,
        ofBigEndian_append_byte, hHigh, hLow, ih]

/- A number is below the bound of its count of bytes. -/
theorem ofBigEndian_lt
    (bytes : Bytes) :
    ofBigEndian bytes < 256 ^ bytes.length := by
  have hSame :=
    ofBigEndian_bigEndian bytes.length (ofBigEndian bytes)
  rw [bigEndian_ofBigEndian] at hSame
  rw [hSame]
  exact Nat.mod_lt _ (Nat.pow_pos (by decide))

/- A number below the modulus stands for itself again. -/
theorem unsigned_signed
    {modulus n : Nat}
    (hLess : n < modulus) :
    unsigned modulus (signed modulus n) = n := by
  have hMod : (n : Int) % modulus = n :=
    Int.emod_eq_of_lt (Int.natCast_nonneg n) (by omega)
  rw [unsigned, signed, Int.bmod_emod, hMod, Int.toNat_natCast]

/- Bytes before and from a place, which must be in them. -/
def cut?
    (bytes : Bytes)
    (place : Nat) : Option (Bytes × Bytes) :=
  if place ≤ bytes.length then
    some (bytes.take place, bytes.drop place)
  else none

/- Bytes are cut at a place that is in them. -/
theorem cut?_of_le
    {bytes : Bytes}
    {place : Nat}
    (hPlace : place ≤ bytes.length) :
    bytes.cut? place =
      some (bytes.take place, bytes.drop place) :=
  if_pos hPlace

end Bytes

namespace Timestamp

------------------------------------------------------------
-- What Bytes Spell
------------------------------------------------------------

/- The seconds from the year 1 that bytes spell. -/
def secondsIn
    (bytes : Bytes) : Int :=
  Bytes.signed wordCount
    (Bytes.ofBigEndian ((bytes.drop 1).take 8))

/- The nanoseconds that bytes spell. -/
def nanosIn
    (bytes : Bytes) : Nat :=
  Bytes.ofBigEndian ((bytes.drop 9).take 4)

/- The zone offset in minutes that bytes spell. -/
def offsetIn
    (bytes : Bytes) : Int :=
  Bytes.signed 65536 (Bytes.ofBigEndian (bytes.drop 13))

/- Bytes have the length of their version, 1 or 2. -/
def HasVersion
    (bytes : Bytes) : Prop :=
  bytes.head? = some 1 ∧ bytes.length = 15 ∨
  bytes.head? = some 2 ∧ bytes.length = 16

/- The version of bytes is one of those with their length. -/
theorem hasVersion_cons_iff
    {version : UInt8}
    {body : Bytes} :
    HasVersion (version :: body) ↔
      lengthOf? version = some (body.length + 1) := by
  unfold HasVersion lengthOf?
  rw [List.head?_cons, List.length_cons]
  split <;> simp_all

/- A version's length leaves room for both numbers. -/
theorem twelve_lt_of_lengthOf?
    {version : UInt8}
    {length : Nat}
    (hLength : lengthOf? version = some length) :
    12 < length := by
  unfold lengthOf? at hLength
  split at hLength
  · cases hLength
    decide
  · cases hLength
    decide
  · cases hLength

/- Bytes with a version are read as the numbers in them. -/
theorem ofBytes_of_lengthOf?
    {version : UInt8}
    {body : Bytes}
    (hVersion : lengthOf? version = some (body.length + 1)) :
    ofBytes (version :: body) =
      ofUnix (secondsIn (version :: body) - yearOneToUnix)
        (nanosIn (version :: body)) := by
  have hSeconds :
      secondsIn (version :: body) =
        Bytes.signed wordCount
          (Bytes.ofBigEndian (body.take 8)) := by
    rfl
  have hNanos :
      nanosIn (version :: body) =
        Bytes.ofBigEndian ((body.drop 8).take 4) := by
    rw [nanosIn, List.drop_succ_cons]
  rw [hSeconds, hNanos, ofUnix]
  cases hTime :
      ofUnix?
        (Bytes.signed wordCount
            (Bytes.ofBigEndian (body.take 8)) -
          yearOneToUnix)
        (Bytes.ofBigEndian ((body.drop 8).take 4)) <;>
    simp only [ofBytes, hVersion, ne_eq, not_true_eq_false,
      if_false, hTime]

/- Bytes are read exactly as the numbers in them. -/
theorem ofBytes_eq_ok_iff
    {bytes : Bytes}
    {t : Timestamp} :
    ofBytes bytes = .ok t ↔
      HasVersion bytes ∧
      t.seconds = secondsIn bytes - yearOneToUnix ∧
      t.nanos = nanosIn bytes ∧
      t.IsRegular := by
  cases bytes with
  | nil => simp [ofBytes, HasVersion]
  | cons version body =>
      rw [hasVersion_cons_iff]
      by_cases hVersion :
          lengthOf? version = some (body.length + 1)
      · rw [ofBytes_of_lengthOf? hVersion, ofUnix_eq_ok_iff]
        exact (and_iff_right hVersion).symm
      · refine iff_of_false ?_ fun hAll => hVersion hAll.1
        rw [ofBytes]
        cases hLength : lengthOf? version with
        | none => simp
        | some length =>
            have hOther : body.length + 1 ≠ length := by
              intro hEq
              exact hVersion (hEq ▸ hLength)
            simp only [if_pos hOther]
            simp

------------------------------------------------------------
-- Writing and Reading That Could Stop
------------------------------------------------------------

/- The stored form, unless the seconds leave their range. -/
def write?
    (t : Timestamp) : Option Bytes :=
  (Integer.ofInt? .i64 (t.seconds + yearOneToUnix)).map
    fun seconds =>
      1 :: Bytes.bigEndian 8
          (Bytes.unsigned wordCount seconds.toInt) ++
        Bytes.bigEndian 4 t.nanos ++ utcOffset

/-
  The point in time of seconds from the year 1, from which
  those to 1970 must be subtracted within 64 bits.
-/
def ofYearOne
    (seconds : Int)
    (nanos : Nat) : Except Malformed Timestamp :=
  match Integer.ofInt? .i64 (seconds - yearOneToUnix) with
  | some unix => ofUnix unix.toInt nanos
  | none => .error .outOfRange

/-
  The point in time with a given stored form, unless bytes
  are cut behind their end.
-/
def read? : Bytes → Option (Except Malformed Timestamp)
  | [] => some (.error .noData)
  | version :: body =>
      match lengthOf? version with
      | none => some (.error (.unsupportedVersion version))
      | some length =>
          if body.length + 1 ≠ length then
            some (.error
              (.wrongLength length (body.length + 1)))
          else do
            let (seconds, rest) ← Bytes.cut? body 8
            let (nanos, _) ← Bytes.cut? rest 4
            return ofYearOne
              (Bytes.signed wordCount
                (Bytes.ofBigEndian seconds))
              (Bytes.ofBigEndian nanos)

/- Writing a point in time never stops. -/
theorem write?_eq_some
    (t : Timestamp) :
    t.write? = some t.toBytes := by
  have hSeconds :
      IntType.i64.least ≤ t.seconds + yearOneToUnix ∧
        t.seconds + yearOneToUnix ≤ IntType.i64.greatest := by
    have hCalendar := t.inCalendar
    simp only [InCalendar, firstSecond, lastSecond]
      at hCalendar
    simp only [IntType.least, IntType.greatest, yearOneToUnix]
    omega
  rw [write?, Integer.ofInt?, dif_pos hSeconds]
  rfl

/- Seconds within the calendar are within 64 bits. -/
theorem InCalendar.least_le
    {seconds : Int}
    (hCalendar : InCalendar seconds) :
    IntType.i64.least ≤ seconds ∧
      seconds ≤ IntType.i64.greatest := by
  simp only [InCalendar, firstSecond, lastSecond] at hCalendar
  simp only [IntType.least, IntType.greatest]
  omega

/-
  What is subtracted out of range is not within the calendar
  either, so that the range decides nothing.
-/
theorem ofYearOne_eq
    (seconds : Int)
    (nanos : Nat) :
    ofYearOne seconds nanos =
      ofUnix (seconds - yearOneToUnix) nanos := by
  rw [ofYearOne]
  cases hRange :
      Integer.ofInt? .i64 (seconds - yearOneToUnix) with
  | some unix =>
      simp only [Integer.ofInt?_eq_some_iff.mp hRange]
  | none =>
      have hOut := Integer.ofInt?_eq_none_iff.mp hRange
      rw [ofUnix, ofUnix?,
        dif_neg fun hValid => hOut hValid.1.least_le]

/- Reading bytes never stops. -/
theorem read?_eq_some
    (bytes : Bytes) :
    read? bytes = some (ofBytes bytes) := by
  cases bytes with
  | nil => rfl
  | cons version body =>
      rw [read?]
      cases hVersion : lengthOf? version with
      | none => simp only [ofBytes, hVersion]
      | some length =>
          by_cases hLength : body.length + 1 = length
          · subst hLength
            have hRoom := twelve_lt_of_lengthOf? hVersion
            have hFirst : 8 ≤ body.length := by
              omega
            have hSecond : 4 ≤ (body.drop 8).length := by
              rw [List.length_drop]
              omega
            rw [ofBytes_of_lengthOf? hVersion, ← ofYearOne_eq]
            simp only [ne_eq, not_true_eq_false, if_false,
              Bytes.cut?_of_le hFirst, Option.bind_eq_bind,
              Option.bind_some, Bytes.cut?_of_le hSecond]
            rfl
          · simp only [if_pos hLength, ofBytes, hVersion, ne_eq]

------------------------------------------------------------
-- Writing What Was Read
------------------------------------------------------------

/- Bytes with a version are longer than their numbers. -/
theorem HasVersion.exists_cons
    {bytes : Bytes}
    (hVersion : HasVersion bytes) :
    ∃ version body,
      bytes = version :: body ∧ 12 ≤ body.length := by
  cases bytes with
  | nil => simp [HasVersion] at hVersion
  | cons version body =>
      have hRoom :=
        twelve_lt_of_lengthOf? (hasVersion_cons_iff.mp hVersion)
      exact ⟨version, body, rfl, by omega⟩

/- What was read is written with the same two numbers. -/
theorem toBytes_of_ofBytes
    {bytes : Bytes}
    {t : Timestamp}
    (hRead : ofBytes bytes = .ok t) :
    t.toBytes = 1 :: (bytes.drop 1).take 12 ++ utcOffset := by
  obtain ⟨hVersion, hSeconds, hNanos, _⟩ :=
    ofBytes_eq_ok_iff.mp hRead
  obtain ⟨version, body, rfl, hRoom⟩ := hVersion.exists_cons
  have hFirst : (body.take 8).length = 8 := by
    rw [List.length_take]
    omega
  have hSecond : ((body.drop 8).take 4).length = 4 := by
    rw [List.length_take, List.length_drop]
    omega
  have hLess :
      Bytes.ofBigEndian (body.take 8) < wordCount := by
    have hBound := Bytes.ofBigEndian_lt (body.take 8)
    rw [hFirst] at hBound
    exact hBound
  have hWord :
      Bytes.unsigned wordCount (t.seconds + yearOneToUnix) =
        Bytes.ofBigEndian (body.take 8) := by
    rw [hSeconds, Int.sub_add_cancel]
    exact Bytes.unsigned_signed hLess
  have hSecondsBytes :
      Bytes.bigEndian 8 (Bytes.ofBigEndian (body.take 8)) =
        body.take 8 := by
    have hSame := Bytes.bigEndian_ofBigEndian (body.take 8)
    rwa [hFirst] at hSame
  have hNanosBytes :
      Bytes.bigEndian 4 t.nanos = (body.drop 8).take 4 := by
    have hSame :=
      Bytes.bigEndian_ofBigEndian ((body.drop 8).take 4)
    rw [hSecond] at hSame
    rw [hNanos, nanosIn, List.drop_succ_cons]
    exact hSame
  have hNumbers :
      body.take 8 ++ (body.drop 8).take 4 = body.take 12 :=
    List.take_add.symm
  rw [toBytes, hWord, hSecondsBytes, hNanosBytes,
    List.cons_append, hNumbers, List.drop_one, List.tail_cons]

/- Two bytes spell `-1` if they are those for no zone. -/
theorem eq_utcOffset_iff
    {bytes : Bytes}
    (hLength : bytes.length = 2) :
    bytes = utcOffset ↔
      Bytes.signed 65536 (Bytes.ofBigEndian bytes) = -1 := by
  constructor
  · rintro rfl
    decide
  · intro hOffset
    have hLess : Bytes.ofBigEndian bytes < 65536 := by
      have hBound := Bytes.ofBigEndian_lt bytes
      rwa [hLength] at hBound
    have hSpelled : Bytes.ofBigEndian bytes = 65535 := by
      rw [← Bytes.unsigned_signed hLess, hOffset]
      rfl
    have hSame := Bytes.bigEndian_ofBigEndian bytes
    rw [hLength, hSpelled] at hSame
    exact hSame.symm

/-
  Bytes that were read are written again if they have no
  zone, which only version 1 is written with.
-/
theorem toBytes_eq_iff
    {bytes : Bytes}
    {t : Timestamp}
    (hRead : ofBytes bytes = .ok t) :
    t.toBytes = bytes ↔
      bytes.head? = some 1 ∧ offsetIn bytes = -1 := by
  obtain ⟨hVersion, _, _⟩ := ofBytes_eq_ok_iff.mp hRead
  rw [toBytes_of_ofBytes hRead]
  constructor
  · intro hSame
    obtain ⟨version, body, rfl, hRoom⟩ := hVersion.exists_cons
    have hLength : (body.take 12).length = 12 := by
      rw [List.length_take]
      omega
    rw [List.drop_one, List.tail_cons, List.cons_append]
      at hSame
    obtain ⟨hFirst, hBody⟩ := List.cons.inj hSame
    refine ⟨congrArg some hFirst.symm, ?_⟩
    have hEnd : body.drop 12 = utcOffset := by
      rw [← hBody, List.drop_append_of_le_length (by omega)]
      rw [List.drop_eq_nil_of_le (by omega), List.nil_append]
    rw [offsetIn, List.drop_succ_cons, hEnd]
    decide
  · rintro ⟨hFirst, hOffset⟩
    have hLength : bytes.length = 15 := by
      rcases hVersion with hOne | hTwo
      · exact hOne.2
      · rw [hFirst] at hTwo
        cases hTwo.1
    cases bytes with
    | nil => cases hFirst
    | cons version body =>
        cases hFirst
        have hEnd : (body.drop 12).length = 2 := by
          rw [List.length_drop]
          simp at hLength
          omega
        rw [offsetIn, List.drop_succ_cons] at hOffset
        rw [← (eq_utcOffset_iff hEnd).mpr hOffset,
          List.drop_one, List.tail_cons, List.cons_append,
          List.take_append_drop]

------------------------------------------------------------
-- The Stored Form
------------------------------------------------------------

/-
  Bytes have a version, and spell seconds that are within 64
  bits and within the calendar, with nanoseconds that fit.
-/
structure IsAccepted
    (bytes : Bytes) : Prop where
  hasVersion : HasVersion bytes
  least_le :
    IntType.i64.least ≤ secondsIn bytes - yearOneToUnix
  valid :
    Valid (secondsIn bytes - yearOneToUnix) (nanosIn bytes)

/-
  A point in time is the one that bytes spell: it has their
  numbers and is written with them, and as the same bytes if
  their version is 1 and their offset is `-1`.
-/
structure IsSpelledBy
    (t : Timestamp)
    (bytes : Bytes) : Prop where
  seconds_eq : t.seconds = secondsIn bytes - yearOneToUnix
  nanos_eq : t.nanos = nanosIn bytes
  numbers_eq :
    (t.toBytes.drop 1).take 12 = (bytes.drop 1).take 12
  eq_iff :
    t.toBytes = bytes ↔
      bytes.head? = some 1 ∧ offsetIn bytes = -1

/- A point in time is read from exactly the bytes accepted. -/
theorem exists_ofBytes_iff
    {bytes : Bytes} :
    (∃ t, ofBytes bytes = .ok t) ↔ IsAccepted bytes := by
  constructor
  · rintro ⟨t, hRead⟩
    obtain ⟨hVersion, hSeconds, hNanos, hRegular⟩ :=
      ofBytes_eq_ok_iff.mp hRead
    rw [IsRegular, hSeconds, hNanos] at hRegular
    exact ⟨hVersion, hRegular.1.least_le.1, hRegular⟩
  · rintro ⟨hVersion, _, hValid⟩
    exact ⟨⟨_, _, hValid.1, hValid.nanos_lt⟩,
      ofBytes_eq_ok_iff.mpr ⟨hVersion, rfl, rfl, hValid⟩⟩

/- What is read from bytes is what they spell. -/
theorem isSpelledBy_of_ofBytes
    {bytes : Bytes}
    {t : Timestamp}
    (hRead : ofBytes bytes = .ok t) :
    t.IsSpelledBy bytes := by
  obtain ⟨hVersion, hSeconds, hNanos, _⟩ :=
    ofBytes_eq_ok_iff.mp hRead
  refine ⟨hSeconds, hNanos, ?_, toBytes_eq_iff hRead⟩
  obtain ⟨version, body, rfl, hRoom⟩ := hVersion.exists_cons
  rw [toBytes_of_ofBytes hRead]
  simp [hRoom]

/-
  Every point in time is written without a stop, and found
  again in its stored form if and only if its numbers name
  it.  No bytes stop a reading; those accepted are read, and
  as the point in time they spell.
-/
theorem stored_form_exact :
    (∀ t : Timestamp,
      t.write? = some t.toBytes ∧
      t.toBytes.length = 15 ∧
      (ofBytes t.toBytes = .ok t ↔ t.IsRegular)) ∧
    (∀ bytes, read? bytes = some (ofBytes bytes)) ∧
    (∀ bytes,
      (∃ t, ofBytes bytes = .ok t) ↔ IsAccepted bytes) ∧
    ∀ bytes t, ofBytes bytes = .ok t → t.IsSpelledBy bytes := by
  refine ⟨?_, read?_eq_some, fun _ => exists_ofBytes_iff,
    fun _ _ hRead => isSpelledBy_of_ofBytes hRead⟩
  intro t
  have hLength : t.toBytes.length = 15 := by
    simp [toBytes, Bytes.length_bigEndian, utcOffset]
  exact ⟨t.write?_eq_some, hLength,
    ofBytes_toBytes_eq_ok_iff.trans (and_iff_right rfl)⟩

/- A leap second in version 2, two hours east of no zone. -/
theorem stored_form_exact_leap :
    let bytes : Bytes :=
      [2, 0, 0, 0, 0x0E, 0x77, 0x91, 0xF7, 0x3B,
        0x59, 0x68, 0x2F, 0x00, 0, 120, 0]
    let t : Timestamp :=
      ⟨59, 1500000000, by decide, by decide⟩
    ofBytes bytes = .ok t ∧
    IsAccepted bytes ∧
    t.IsSpelledBy bytes ∧
    ofBytes t.toBytes = .ok t := by
  intro bytes t
  have hRegular : t.IsRegular := by
    decide
  have hRead : ofBytes bytes = .ok t :=
    ofBytes_eq_ok_iff.mpr
      ⟨Or.inr ⟨rfl, rfl⟩, by decide, by decide, hRegular⟩
  exact ⟨hRead, (stored_form_exact.2.2.1 bytes).mp ⟨t, hRead⟩,
    stored_form_exact.2.2.2 bytes t hRead,
    (stored_form_exact.1 t).2.2.mpr hRegular⟩

end Timestamp

end CrdtDoc
