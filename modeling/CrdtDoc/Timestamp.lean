import CrdtDoc.Bytes

/-
  This file defines points in time and their stored form.

  The stored form is one byte for the version, eight for
  the seconds since the year 1, four for the nanoseconds
  and two for the zone offset in minutes, numbers highest
  byte first.  Version 2 has one byte more.  The offset is
  only for display, so that reading ignores it.

  Nanoseconds may fill two seconds, the second of which is a
  leap second.  A point in time can have one at any second,
  but numbers name it only at the end of a minute.

  Key definitions include:
    * `Timestamp`
    * `Timestamp.ofUnix?`
    * `Timestamp.IsRegular`
    * `Timestamp.toBytes`
    * `Timestamp.ofBytes`
-/

namespace CrdtDoc

------------------------------------------------------------
-- Points in Time
------------------------------------------------------------

namespace Timestamp

/- The least and the greatest second of the calendar. -/
def firstSecond : Int := -8334601228800
def lastSecond : Int := 8210266876799

/- Is a second within the calendar? -/
def InCalendar
    (seconds : Int) : Prop :=
  firstSecond ≤ seconds ∧ seconds ≤ lastSecond

instance
    (seconds : Int) :
    Decidable (InCalendar seconds) := by
  unfold InCalendar
  infer_instance

/-
  Which seconds and nanoseconds name a point in time: the
  seconds are within the calendar, and the nanoseconds fill
  at most one second, or two at the last second of a minute,
  where a leap second may stand.
-/
def Valid
    (seconds : Int)
    (nanos : Nat) : Prop :=
  InCalendar seconds ∧
    (nanos < 1000000000 ∨
      nanos < 2000000000 ∧ seconds % 60 = 59)

instance
    (seconds : Int)
    (nanos : Nat) :
    Decidable (Valid seconds nanos) := by
  unfold Valid
  infer_instance

/- Numbers that name a point in time fill two seconds. -/
theorem Valid.nanos_lt
    {seconds : Int}
    {nanos : Nat}
    (hValid : Valid seconds nanos) :
    nanos < 2000000000 := by
  rcases hValid.2 with hOne | ⟨hTwo, _⟩
  · omega
  · exact hTwo

end Timestamp

/-
  A point in time, counted from the start of 1970.  It may
  have a leap second at any second of the calendar.
-/
@[ext]
structure Timestamp where
  seconds : Int
  nanos : Nat
  inCalendar : Timestamp.InCalendar seconds
  nanos_lt : nanos < 2000000000
deriving DecidableEq, Repr

namespace Timestamp

/- The point in time that seconds and nanoseconds name. -/
def ofUnix?
    (seconds : Int)
    (nanos : Nat) : Option Timestamp :=
  if h : Valid seconds nanos then
    some ⟨seconds, nanos, h.1, h.nanos_lt⟩
  else none

/-
  Do the numbers of a point in time name it?  They do unless
  it has a leap second where no minute ends.
-/
def IsRegular
    (t : Timestamp) : Prop :=
  Valid t.seconds t.nanos

instance
    (t : Timestamp) :
    Decidable t.IsRegular := by
  unfold IsRegular
  infer_instance

/- The numbers of a point in time name no other one. -/
theorem ofUnix?_eq_some_iff
    {seconds : Int}
    {nanos : Nat}
    {t : Timestamp} :
    ofUnix? seconds nanos = some t ↔
      t.seconds = seconds ∧ t.nanos = nanos ∧
      t.IsRegular := by
  unfold ofUnix?
  constructor
  · intro hTime
    split at hTime
    · rename_i hValid
      cases hTime
      exact ⟨rfl, rfl, hValid⟩
    · cases hTime
  · rintro ⟨rfl, rfl, hRegular⟩
    exact dif_pos hRegular

/- The start of 1970. -/
def epoch : Timestamp :=
  ⟨0, 0, by decide, by decide⟩

instance : Inhabited Timestamp :=
  ⟨epoch⟩

------------------------------------------------------------
-- Stored Form
------------------------------------------------------------

/- Why bytes are not the stored form of a point in time. -/
inductive Malformed where
  | noData
  | unsupportedVersion (version : UInt8)
  | wrongLength (expected found : Nat)
  | outOfRange
deriving DecidableEq, Repr

/- The reason as shown. -/
def Malformed.message : Malformed → String
  | .noData => "no data"
  | .unsupportedVersion version =>
      "unsupported version " ++ toString version.toNat
  | .wrongLength expected found =>
      "expected " ++ toString expected ++ " bytes, found " ++
        toString found
  | .outOfRange => "timestamp out of range"

/- The seconds from the start of the year 1 to 1970. -/
def yearOneToUnix : Int := 62135596800

/- The zone offset that stands for no zone, `-1`. -/
def utcOffset : Bytes := [0xFF, 0xFF]

/- How many numbers have eight bytes. -/
def wordCount : Nat := 18446744073709551616

/- The stored form, in version 1 and without a zone. -/
def toBytes
    (t : Timestamp) : Bytes :=
  let seconds :=
    Bytes.unsigned wordCount (t.seconds + yearOneToUnix)
  1 :: Bytes.bigEndian 8 seconds ++
    Bytes.bigEndian 4 t.nanos ++ utcOffset

/- The length of the stored form of each version. -/
def lengthOf? : UInt8 → Option Nat
  | 1 => some 15
  | 2 => some 16
  | _ => none

/- The point in time with a given stored form. -/
def ofBytes : Bytes → Except Malformed Timestamp
  | [] => .error .noData
  | version :: body =>
      match lengthOf? version with
      | none => .error (.unsupportedVersion version)
      | some length =>
          if body.length + 1 ≠ length then
            .error (.wrongLength length (body.length + 1))
          else
            let seconds :=
              Bytes.signed wordCount
                (Bytes.ofBigEndian (body.take 8))
            let nanos :=
              Bytes.ofBigEndian ((body.drop 8).take 4)
            match ofUnix? (seconds - yearOneToUnix) nanos with
            | some t => .ok t
            | none => .error .outOfRange

end Timestamp

end CrdtDoc
