import CrdtDoc.Bytes

/-
  This file relates text to the bytes of its UTF-8 form.
  Reading is strict (`Text.decode?`) where the text is data,
  and lossy (`Text.lossy`) where it is only shown.

  Key definitions include:
    * `Text.encode`
    * `Text.decode?`
    * `Text.lossy`

  Strict reading is exact in both directions:
    * `Text.decode?_eq_some_iff`
-/

namespace CrdtDoc

namespace Text

------------------------------------------------------------
-- Strict Reading
------------------------------------------------------------

/- The UTF-8 bytes of a text. -/
def encode
    (text : String) : Bytes :=
  text.toByteArray.data.toList

/- The text with the given UTF-8 bytes, if there is one. -/
def decode?
    (bytes : Bytes) : Option String :=
  String.fromUTF8? ⟨bytes.toArray⟩

/- Bytes read as a text exactly if they are its bytes. -/
theorem decode?_eq_some_iff
    {bytes : Bytes}
    {text : String} :
    decode? bytes = some text ↔ bytes = encode text := by
  unfold decode? encode String.fromUTF8?
  constructor
  · intro hDecode
    split at hDecode
    · cases hDecode
      rfl
    · cases hDecode
  · intro hBytes
    subst hBytes
    have hValid :
        (⟨text.toByteArray.data.toList.toArray⟩ :
          ByteArray).IsValidUTF8 :=
      text.isValidUTF8
    split
    · rfl
    · rename_i hNot
      simp_all

------------------------------------------------------------
-- Lossy Reading
------------------------------------------------------------

/- The mark shown in place of bytes that are no text. -/
def replacement : Char :=
  '\uFFFD'

/-
  What a lossy reader holds between two bytes: nothing, or
  the start of a character.  Of such a start it knows the
  code so far, the range of the next byte, and how many
  bytes follow that one.
-/
inductive Scan where
  | ready
  | inside (code : Nat) (low high : UInt8) (more : Nat)
deriving DecidableEq, Repr

/- The characters a byte completes at the start of one. -/
def start
    (byte : UInt8) : List Char × Scan :=
  let code := byte.toNat
  if code < 0x80 then ([Char.ofNat code], .ready)
  else if code < 0xC2 then ([replacement], .ready)
  else if code < 0xE0 then
    ([], .inside (code - 0xC0) 0x80 0xBF 0)
  else if code = 0xE0 then ([], .inside 0 0xA0 0xBF 1)
  else if code = 0xED then ([], .inside 0xD 0x80 0x9F 1)
  else if code < 0xF0 then
    ([], .inside (code - 0xE0) 0x80 0xBF 1)
  else if code = 0xF0 then ([], .inside 0 0x90 0xBF 2)
  else if code < 0xF4 then
    ([], .inside (code - 0xF0) 0x80 0xBF 2)
  else if code = 0xF4 then ([], .inside 4 0x80 0x8F 2)
  else ([replacement], .ready)

/-
  One byte more.  A byte that cannot go on with the
  character begun before it closes that character with one
  replacement mark, and then starts the next one.
-/
def step
    (scan : Scan)
    (byte : UInt8) : List Char × Scan :=
  match scan with
  | .ready => start byte
  | .inside code low high more =>
      if low ≤ byte ∧ byte ≤ high then
        let code := code * 64 + (byte.toNat - 0x80)
        match more with
        | 0 => ([Char.ofNat code], .ready)
        | more + 1 => ([], .inside code 0x80 0xBF more)
      else
        let (chars, scan) := start byte
        (replacement :: chars, scan)

/- The characters read from a state on. -/
def scanAll : Scan → Bytes → List Char
  | .ready, [] => []
  | .inside .., [] => [replacement]
  | scan, byte :: rest =>
      let (chars, scan) := step scan byte
      chars ++ scanAll scan rest

/-
  The text shown for a byte string: each longest start of a
  character that does not go on to be one, and each byte
  that starts none, becomes one replacement mark.
-/
def lossy
    (bytes : Bytes) : String :=
  String.ofList (scanAll .ready bytes)

end Text

end CrdtDoc
