import CrdtDoc.Proofs.IntegerText
import Mathlib.Data.List.Induction
import Mathlib.Data.Nat.Digits.Defs

/-
  This file shows which bytes are read as integers, and as
  which.  They are decimal digits behind at most one sign,
  with any number of zeros in front.  Among all bytes that
  are read as one integer, its text is the shortest form:
  the only one without a needless sign or zero.

  Key definitions include:
    * `Bytes.IsDecimal`
    * `Bytes.decimalValue`
    * `Integer.Spells`
    * `Integer.IsCanonical`

  Main declarations:
    * `Integer.digitsFrom?_eq_some_iff`
    * `Integer.toDigits_of_digitsFrom?`
    * `Integer.decode?_eq_some_iff`
    * `Integer.isCanonical_iff_of_spells`
    * `Integer.reads_exactly`
-/

namespace CrdtDoc

------------------------------------------------------------
-- Decimal Bytes
------------------------------------------------------------

namespace Bytes

/- One or more bytes, each that of a decimal digit. -/
structure IsDecimal
    (digits : Bytes) : Prop where
  ne_nil : digits ≠ []
  isDigit :
    ∀ byte ∈ digits, 48 ≤ byte.toNat ∧ byte.toNat ≤ 57

/- Whether bytes are decimal is found byte by byte. -/
instance
    (digits : Bytes) :
    Decidable digits.IsDecimal :=
  decidable_of_iff
    (digits ≠ [] ∧
      digits.all (fun byte =>
        48 ≤ byte.toNat && byte.toNat ≤ 57) = true)
    ⟨fun ⟨hNil, hAll⟩ => ⟨hNil, by simpa using hAll⟩,
      fun hDecimal =>
        ⟨hDecimal.ne_nil, by simpa using hDecimal.isDigit⟩⟩

/- The number that decimal digits spell, highest first. -/
def decimalValue
    (digits : Bytes) : Nat :=
  Nat.ofDigits 10
    (digits.reverse.map fun byte => byte.toNat - 48)

/- One digit more makes a number ten times as great. -/
theorem decimalValue_append_byte
    (front : Bytes)
    (byte : UInt8) :
    decimalValue (front ++ [byte]) =
      decimalValue front * 10 + (byte.toNat - 48) := by
  simp only [decimalValue, List.reverse_append,
    List.reverse_singleton, List.singleton_append,
    List.map_cons, Nat.ofDigits_cons]
  omega

end Bytes

namespace Text

/- A text is written character by character. -/
theorem encode_ofList_append
    (left right : List Char) :
    encode (String.ofList (left ++ right)) =
      encode (String.ofList left) ++
        encode (String.ofList right) := by
  simp [encode, List.utf8Encode]

/- A character below 128 is written as one byte. -/
theorem encode_ofList_cons
    {c : Char}
    (hSmall : c.toNat < 128)
    (rest : List Char) :
    encode (String.ofList (c :: rest)) =
      UInt8.ofNat c.toNat ::
        encode (String.ofList rest) := by
  have hSize : c.utf8Size = 1 := by
    rw [Char.utf8Size_eq_one_iff, UInt32.le_iff_toNat_le]
    exact Nat.le_of_lt_succ hSmall
  rw [← List.singleton_append, encode_ofList_append]
  simp [encode, List.utf8Encode,
    String.utf8EncodeChar_eq_singleton hSize]
  rfl

/- Different texts are written differently. -/
theorem encode_injective
    {a b : String}
    (hSame : encode a = encode b) :
    a = b := by
  have hFirst := decode?_eq_some_iff.mpr (Eq.refl (encode a))
  have hSecond := decode?_eq_some_iff.mpr hSame
  exact Option.some.inj (hFirst.symm.trans hSecond)

end Text

namespace Integer

------------------------------------------------------------
-- Decimal Characters
------------------------------------------------------------

/- A digit is the character of its own value. -/
theorem digitChar_of_isDigit
    {c : Char}
    (hDigit : c.isDigit = true) :
    (c.toNat - 48).digitChar = c ∧
      48 ≤ c.toNat ∧ c.toNat ≤ 57 := by
  have hRange : 48 ≤ c.toNat ∧ c.toNat ≤ 57 := by
    simpa [Char.isDigit, UInt32.le_iff_toNat_le] using hDigit
  refine ⟨Char.toNat_inj.mp ?_, hRange⟩
  rw [Nat.toNat_digitChar_of_lt_ten (by omega)]
  omega

/- Digits are written as one byte each. -/
theorem encode_ofList_of_isDigit
    {chars : List Char}
    (hDigits : ∀ c ∈ chars, c.isDigit = true) :
    Text.encode (String.ofList chars) =
      chars.map fun c => UInt8.ofNat c.toNat := by
  induction chars with
  | nil => rfl
  | cons c rest ih =>
      rcases List.forall_mem_cons.mp hDigits
        with ⟨hFirst, hRest⟩
      have hRange := (digitChar_of_isDigit hFirst).2
      rw [Text.encode_ofList_cons (by omega), ih hRest]
      rfl

/- Digits begin with a zero if their bytes do. -/
theorem head?_encode_eq_zero_iff
    {chars : List Char}
    (hDigits : ∀ c ∈ chars, c.isDigit = true) :
    (Text.encode (String.ofList chars)).head? = some 0x30 ↔
      chars.head? = some '0' := by
  rw [encode_ofList_of_isDigit hDigits]
  cases chars with
  | nil => exact iff_of_false nofun nofun
  | cons c rest =>
      rcases digitChar_of_isDigit
        (hDigits c List.mem_cons_self) with ⟨hChar, hRange⟩
      rw [List.map_cons, List.head?_cons, List.head?_cons,
        Option.some.injEq, Option.some.injEq]
      constructor
      · intro hByte
        have hCode := congrArg UInt8.toNat hByte
        rw [UInt8.toNat_ofNat'] at hCode
        have hZero : c.toNat - 48 = 0 := by
          change c.toNat % 256 = 48 at hCode
          omega
        rw [← hChar, hZero]
        rfl
      · rintro rfl
        rfl

/- The bytes of digits are decimal. -/
theorem isDecimal_encode
    {chars : List Char}
    (hNil : chars ≠ [])
    (hDigits : ∀ c ∈ chars, c.isDigit = true) :
    (Text.encode (String.ofList chars)).IsDecimal := by
  rw [encode_ofList_of_isDigit hDigits]
  refine ⟨by simpa using hNil, ?_⟩
  rw [List.forall_mem_map]
  intro c hMem
  have hRange := (digitChar_of_isDigit (hDigits c hMem)).2
  rw [UInt8.toNat_ofNat']
  omega

/- Decimal bytes are those of digits. -/
theorem exists_chars_of_isDecimal
    {digits : Bytes}
    (hDecimal : digits.IsDecimal) :
    ∃ chars : List Char,
      chars ≠ [] ∧
      (∀ c ∈ chars, c.isDigit = true) ∧
      Text.encode (String.ofList chars) = digits := by
  let digit (byte : UInt8) : Char :=
    (byte.toNat - 48).digitChar
  have hByte :
      ∀ byte ∈ digits,
        (digit byte).isDigit = true ∧
          (digit byte).toNat = byte.toNat := by
    intro byte hMem
    rcases hDecimal.isDigit byte hMem with ⟨hLeast, hMost⟩
    have hSmall : byte.toNat - 48 < 10 := by
      omega
    refine ⟨?_, ?_⟩
    · rw [Nat.isDigit_digitChar, decide_eq_true hSmall]
    · rw [Nat.toNat_digitChar_of_lt_ten hSmall,
        Nat.add_sub_cancel' hLeast]
  have hDigits :
      ∀ c ∈ digits.map digit, c.isDigit = true := by
    rw [List.forall_mem_map]
    exact fun byte hMem => (hByte byte hMem).1
  refine ⟨_, by simpa using hDecimal.ne_nil, hDigits, ?_⟩
  rw [encode_ofList_of_isDigit hDigits, List.map_map]
  refine List.map_congr_left (fun byte hMem => ?_) |>.trans
    (List.map_id digits)
  rw [Function.comp_apply, (hByte byte hMem).2,
    UInt8.ofNat_toNat, id]

/- Digits are read as the number that their bytes spell. -/
theorem digitsFrom?_eq_some_iff
    {chars : List Char}
    {n : Nat} :
    digitsFrom? 0 chars = some n ↔
      (∀ c ∈ chars, c.isDigit = true) ∧
      (Text.encode (String.ofList chars)).decimalValue =
        n := by
  induction chars using List.reverseRecOn generalizing n with
  | nil => simp [digitsFrom?, Bytes.decimalValue, Text.encode]
  | append_singleton front c ih =>
      rw [digitsFrom?_append, Option.bind_eq_some_iff,
        List.forall_mem_append, List.forall_mem_singleton,
        and_assoc]
      simp only [ih]
      by_cases hDigit : c.isDigit = true
      · have hRange := (digitChar_of_isDigit hDigit).2
        have hByte : (UInt8.ofNat c.toNat).toNat = c.toNat := by
          rw [UInt8.toNat_ofNat']
          omega
        have hNil : Text.encode (String.ofList []) = [] := rfl
        rw [Text.encode_ofList_append,
          Text.encode_ofList_cons (by omega), hNil,
          Bytes.decimalValue_append_byte, hByte]
        simp [digitsFrom?, hDigit]
      · simp [digitsFrom?, hDigit]

/- One or more digits are read as the number they spell. -/
theorem digits?_eq_some_iff
    {chars : List Char}
    {n : Nat} :
    digits? chars = some n ↔
      chars ≠ [] ∧ digitsFrom? 0 chars = some n := by
  cases chars with
  | nil => simp [digits?]
  | cons c rest => simp [digits?]

/- Digits that are read are decimal, with that value. -/
theorem isDecimal_of_digits?
    {chars : List Char}
    {n : Nat}
    (hRead : digits? chars = some n) :
    (Text.encode (String.ofList chars)).IsDecimal ∧
    (Text.encode (String.ofList chars)).decimalValue = n := by
  rcases digits?_eq_some_iff.mp hRead with ⟨hNil, hFrom⟩
  rcases digitsFrom?_eq_some_iff.mp hFrom
    with ⟨hDigits, hValue⟩
  exact ⟨isDecimal_encode hNil hDigits, hValue⟩

/- Decimal bytes are those of digits, which are read. -/
theorem exists_digits?_of_isDecimal
    {digits : Bytes}
    (hDecimal : digits.IsDecimal) :
    ∃ chars : List Char,
      (∀ c, chars.head? = some c → c.isDigit = true) ∧
      digits? chars = some digits.decimalValue ∧
      Text.encode (String.ofList chars) = digits := by
  rcases exists_chars_of_isDecimal hDecimal
    with ⟨chars, hNil, hDigits, rfl⟩
  refine ⟨chars, ?_, ?_, rfl⟩
  · intro c hHead
    exact hDigits c (List.mem_of_head? hHead)
  · exact digits?_eq_some_iff.mpr
      ⟨hNil, digitsFrom?_eq_some_iff.mpr ⟨hDigits, rfl⟩⟩

/- Digits without a needless zero are those of a number. -/
theorem toDigits_of_digitsFrom?
    {chars : List Char}
    {n : Nat}
    (hRead : digitsFrom? 0 chars = some n)
    (hNil : chars ≠ [])
    (hZero : chars.head? = some '0' → chars.length = 1) :
    Nat.toDigits 10 n = chars := by
  induction chars using List.reverseRecOn generalizing n with
  | nil => exact absurd rfl hNil
  | append_singleton front c ih =>
      rw [digitsFrom?_append, Option.bind_eq_some_iff] at hRead
      rcases hRead with ⟨m, hFront, hLast⟩
      have hDigit : c.isDigit = true := by
        by_contra hNot
        simp [digitsFrom?, hNot] at hLast
      rcases digitChar_of_isDigit hDigit with ⟨hChar, hRange⟩
      have hValue : m * 10 + (c.toNat - 48) = n := by
        simpa [digitsFrom?, hDigit] using hLast
      cases front with
      | nil =>
          cases hFront
          have hSmall : n < 10 := by
            omega
          rw [Nat.toDigits_of_lt_base hSmall, ← hValue,
            Nat.zero_mul, Nat.zero_add, hChar]
          rfl
      | cons first others =>
          -- Two digits or more do not begin with a zero.
          have hFirst : first ≠ '0' := by
            rintro rfl
            simpa using hZero rfl
          have hDigits :=
            ih hFront (List.cons_ne_nil first others)
              fun hHead => absurd (Option.some.inj hHead) hFirst
          have hPos : m ≠ 0 := by
            rintro rfl
            cases hDigits
            exact hFirst rfl
          have hHigh : n / 10 = m := by
            omega
          have hLow : n % 10 = c.toNat - 48 := by
            omega
          rw [Nat.toDigits_of_base_le (by decide) (by omega),
            hHigh, hLow, hDigits, hChar]

/- The digits of a number are those without a needless zero. -/
theorem toDigits_eq_iff
    {chars : List Char}
    {n : Nat}
    (hRead : digitsFrom? 0 chars = some n)
    (hNil : chars ≠ []) :
    Nat.toDigits 10 n = chars ↔
      (chars.head? = some '0' → chars.length = 1) := by
  refine ⟨?_, toDigits_of_digitsFrom? hRead hNil⟩
  rintro rfl hHead
  by_cases hZero : n = 0
  · subst hZero
    rfl
  · have hFirst :=
      head?_toDigits_ne_zero (Nat.pos_of_ne_zero hZero)
    exact absurd hHead hFirst

------------------------------------------------------------
-- Signed Numbers
------------------------------------------------------------

/- A text is read where its number is, if its sign may be. -/
theorem parse?_eq_some_iff
    {type : IntType}
    {text : String}
    {i : Integer type} :
    parse? type text = some i ↔
      (text.toList.head? = some '-' →
        type.isSigned = true) ∧
      number? text.toList = some i.toInt := by
  unfold parse?
  by_cases hSign :
      text.toList.head? = some '-' ∧ ¬type.isSigned = true
  · rw [if_pos hSign]
    refine iff_of_false nofun ?_
    rintro ⟨hSigned, _⟩
    exact hSign.2 (hSigned hSign.1)
  · rw [if_neg hSign, Option.bind_eq_some_iff]
    simp only [ofInt?_eq_some_iff]
    constructor
    · rintro ⟨n, hNumber, rfl⟩
      exact ⟨not_and_not_right.mp hSign, hNumber⟩
    · rintro ⟨_, hNumber⟩
      exact ⟨_, hNumber, rfl⟩

/-
  Bytes spell a number: they are decimal digits, behind at
  most one sign, which is a minus only in sizes that hold
  negative numbers.
-/
inductive Spells
    (type : IntType) : Bytes → Int → Prop where
  | bare
      {digits : Bytes}
      (hDecimal : digits.IsDecimal) :
      Spells type digits digits.decimalValue
  | plus
      {digits : Bytes}
      (hDecimal : digits.IsDecimal) :
      Spells type (0x2B :: digits) digits.decimalValue
  | minus
      {digits : Bytes}
      (hSigned : type.isSigned = true)
      (hDecimal : digits.IsDecimal) :
      Spells type (0x2D :: digits) (-digits.decimalValue)

/- A text that is read spells the number it is read as. -/
theorem spells_of_number?
    {type : IntType}
    {chars : List Char}
    {n : Int}
    (hSign :
      chars.head? = some '-' → type.isSigned = true)
    (hNumber : number? chars = some n) :
    Spells type (Text.encode (String.ofList chars)) n := by
  unfold number? at hNumber
  split at hNumber
  · rcases Option.map_eq_some_iff.mp hNumber
      with ⟨m, hRead, rfl⟩
    rcases isDecimal_of_digits? hRead with ⟨hBytes, rfl⟩
    rw [Text.encode_ofList_cons (by decide)]
    exact .plus hBytes
  · change number? ('-' :: _) = _ at hNumber
    rw [number?_minus] at hNumber
    rcases Option.map_eq_some_iff.mp hNumber
      with ⟨m, hRead, rfl⟩
    rcases isDecimal_of_digits? hRead with ⟨hBytes, rfl⟩
    rw [Text.encode_ofList_cons (by decide)]
    exact .minus (hSign rfl) hBytes
  · rcases Option.map_eq_some_iff.mp hNumber
      with ⟨m, hRead, rfl⟩
    rcases isDecimal_of_digits? hRead with ⟨hBytes, hValue⟩
    rw [← hValue]
    exact .bare hBytes

/- The bytes of a text are read as the text is. -/
theorem decode?_encode_ofList
    {type : IntType}
    {chars : List Char}
    {i : Integer type}
    (hSign :
      chars.head? = some '-' → type.isSigned = true)
    (hNumber : number? chars = some i.toInt) :
    decode? type (Text.encode (String.ofList chars)) =
      some i := by
  rw [decode?, Text.decode?_eq_some_iff.mpr rfl,
    Option.bind_some, parse?_eq_some_iff,
    String.toList_ofList]
  exact ⟨hSign, hNumber⟩

/- Bytes that spell an integer are read as that integer. -/
theorem decode?_of_spells
    {type : IntType}
    {bytes : Bytes}
    {i : Integer type}
    (hSpells : Spells type bytes i.toInt) :
    decode? type bytes = some i := by
  generalize hInt : i.toInt = n at hSpells
  cases hSpells with
  | bare hDecimal =>
      rcases exists_digits?_of_isDecimal hDecimal
        with ⟨chars, hHead, hValue, rfl⟩
      refine decode?_encode_ofList ?_ ?_
      · intro hMinus
        exact absurd (hHead '-' hMinus) (by decide)
      · rw [number?_of_isDigit hHead, hValue, hInt]
        rfl
  | plus hDecimal =>
      rcases exists_digits?_of_isDecimal hDecimal
        with ⟨chars, _, hValue, rfl⟩
      have hBytes :=
        Text.encode_ofList_cons
          (by decide : '+'.toNat < 128) chars
      refine hBytes ▸ decode?_encode_ofList nofun ?_
      rw [number?, hValue, hInt]
      rfl
  | minus hSigned hDecimal =>
      rcases exists_digits?_of_isDecimal hDecimal
        with ⟨chars, _, hValue, rfl⟩
      have hBytes :=
        Text.encode_ofList_cons
          (by decide : '-'.toNat < 128) chars
      refine hBytes ▸
        decode?_encode_ofList (fun _ => hSigned) ?_
      rw [number?_minus, hValue, hInt]
      rfl

/- Bytes are read as an integer if they spell it. -/
theorem decode?_eq_some_iff
    {type : IntType}
    {bytes : Bytes}
    {i : Integer type} :
    decode? type bytes = some i ↔
      Spells type bytes i.toInt := by
  refine ⟨?_, decode?_of_spells⟩
  intro hDecode
  rcases Option.bind_eq_some_iff.mp hDecode
    with ⟨text, hText, hParse⟩
  rw [Text.decode?_eq_some_iff] at hText
  rcases parse?_eq_some_iff.mp hParse with ⟨hSign, hNumber⟩
  rw [hText, ← String.ofList_toList (s := text)]
  exact spells_of_number? hSign hNumber

------------------------------------------------------------
-- Canonical Forms
------------------------------------------------------------

/- Bytes begin with a sign. -/
def HasSign
    (bytes : Bytes) : Prop :=
  bytes.head? = some 0x2B ∨ bytes.head? = some 0x2D

instance
    (bytes : Bytes) :
    Decidable (HasSign bytes) := by
  unfold HasSign
  infer_instance

/- The bytes behind a sign, or all if there is none. -/
def unsignedPart
    (bytes : Bytes) : Bytes :=
  if HasSign bytes then bytes.tail else bytes

/-
  Bytes have no needless sign or zero: no plus, no zero in
  front of other digits, and no minus in front of zero.
-/
structure IsCanonical
    (bytes : Bytes) : Prop where
  noPlus : bytes.head? ≠ some 0x2B
  noSpareZero :
    (unsignedPart bytes).head? = some 0x30 →
      (unsignedPart bytes).length = 1
  noMinusZero : bytes ≠ [0x2D, 0x30]

/- Decimal bytes do not begin with a sign. -/
theorem not_hasSign_of_isDecimal
    {digits : Bytes}
    (hDecimal : digits.IsDecimal) :
    ¬HasSign digits := by
  have hHead {byte : UInt8}
      (hByte : digits.head? = some byte) :
      48 ≤ byte.toNat :=
    (hDecimal.isDigit byte (List.mem_of_head? hByte)).1
  rintro (hPlus | hMinus)
  · exact absurd (hHead hPlus) (by decide)
  · exact absurd (hHead hMinus) (by decide)

/-
  Decimal bytes are the digits of the number they spell if
  they have no needless zero.
-/
theorem eq_encode_toDigits_iff
    {digits : Bytes}
    (hDecimal : digits.IsDecimal) :
    digits =
        Text.encode
          (String.ofList
            (Nat.toDigits 10 digits.decimalValue)) ↔
      (digits.head? = some 0x30 → digits.length = 1) := by
  rcases exists_chars_of_isDecimal hDecimal
    with ⟨chars, hNil, hAll, hBytes⟩
  have hRead : digitsFrom? 0 chars = some digits.decimalValue :=
    digitsFrom?_eq_some_iff.mpr
      ⟨hAll, congrArg Bytes.decimalValue hBytes⟩
  have hLength : digits.length = chars.length := by
    rw [← hBytes, encode_ofList_of_isDigit hAll,
      List.length_map]
  have hHead := head?_encode_eq_zero_iff hAll
  rw [hBytes] at hHead
  rw [hHead, hLength, ← toDigits_eq_iff hRead hNil]
  constructor
  · intro hSame
    have hText :=
      Text.encode_injective (hBytes.trans hSame)
    exact (String.ofList_injective hText).symm
  · intro hSame
    rw [hSame, hBytes]

/- The bytes of a decimal text. -/
theorem encode_toString
    (n : Int) :
    Text.encode (toString n) =
      if 0 ≤ n then
        Text.encode (String.ofList (Nat.toDigits 10 n.toNat))
      else
        0x2D ::
          Text.encode
            (String.ofList (Nat.toDigits 10 n.natAbs)) := by
  have hText := toList_toString n
  rw [← String.ofList_toList (s := toString n), hText]
  split
  · rfl
  · exact Text.encode_ofList_cons (by decide) _

/- The digits of a number are decimal. -/
theorem isDecimal_toDigits
    (n : Nat) :
    (Text.encode
      (String.ofList (Nat.toDigits 10 n))).IsDecimal :=
  isDecimal_encode (toDigits_ne_nil n) fun _ hMem =>
    Nat.isDigit_of_mem_toDigits (by decide) (by decide) hMem

/- Digits are canonical if they have no needless zero. -/
theorem isCanonical_iff_of_isDecimal
    {digits : Bytes}
    (hDecimal : digits.IsDecimal) :
    IsCanonical digits ↔
      (digits.head? = some 0x30 → digits.length = 1) := by
  have hSign := not_hasSign_of_isDecimal hDecimal
  have hPart : unsignedPart digits = digits := if_neg hSign
  constructor
  · intro hCanonical
    have hZero := hCanonical.noSpareZero
    rwa [hPart] at hZero
  · intro hZero
    refine ⟨fun hPlus => hSign (Or.inl hPlus), ?_, ?_⟩
    · rwa [hPart]
    · rintro rfl
      exact hSign (Or.inr rfl)

/- Behind a minus, a zero is needless also on its own. -/
theorem isCanonical_minus_iff
    {digits : Bytes} :
    IsCanonical (0x2D :: digits) ↔
      (digits.head? = some 0x30 → digits.length = 1) ∧
      digits ≠ [0x30] := by
  have hPart : unsignedPart (0x2D :: digits) = digits :=
    if_pos (Or.inr rfl)
  constructor
  · intro hCanonical
    have hZero := hCanonical.noSpareZero
    rw [hPart] at hZero
    refine ⟨hZero, ?_⟩
    rintro rfl
    exact hCanonical.noMinusZero rfl
  · rintro ⟨hZero, hNotZero⟩
    refine ⟨?_, ?_, ?_⟩
    · rw [List.head?_cons]
      decide
    · rwa [hPart]
    · intro hMinus
      exact hNotZero (List.cons.inj hMinus).2

/- What spells a number is canonical if it is its text. -/
theorem isCanonical_iff_of_spells
    {type : IntType}
    {bytes : Bytes}
    {n : Int}
    (hSpells : Spells type bytes n) :
    IsCanonical bytes ↔ bytes = Text.encode (toString n) := by
  cases hSpells with
  | bare hDecimal =>
      rw [isCanonical_iff_of_isDecimal hDecimal,
        encode_toString, if_pos (Int.natCast_nonneg _),
        Int.toNat_natCast, eq_encode_toDigits_iff hDecimal]
  | plus hDecimal =>
      refine iff_of_false
        (fun hCanonical => hCanonical.noPlus rfl) ?_
      rw [encode_toString, if_pos (Int.natCast_nonneg _)]
      intro hSame
      apply not_hasSign_of_isDecimal (isDecimal_toDigits _)
      rw [← hSame]
      exact Or.inl rfl
  | @minus digits _ hDecimal =>
      rw [isCanonical_minus_iff,
        ← eq_encode_toDigits_iff hDecimal]
      by_cases hValue : digits.decimalValue = 0
      · -- The text of zero has no sign.
        rw [hValue]
        refine iff_of_false ?_ ?_
        · rintro ⟨hDigits, hNotZero⟩
          exact hNotZero hDigits
        · rw [encode_toString, if_pos (by decide)]
          intro hSame
          apply not_hasSign_of_isDecimal (isDecimal_toDigits _)
          rw [← hSame]
          exact Or.inr rfl
      · have hNotZero : digits ≠ [0x30] := by
          rintro rfl
          exact hValue rfl
        have hNegative :
            ¬(0 : Int) ≤ -(digits.decimalValue : Int) := by
          omega
        rw [and_iff_left hNotZero, encode_toString,
          if_neg hNegative, Int.natAbs_neg,
          Int.natAbs_natCast, List.cons.injEq,
          and_iff_right rfl]

------------------------------------------------------------
-- Exact Reading
------------------------------------------------------------

/-
  Bytes are read as a number if and only if they spell it
  and it has the size.  An integer is read from its text,
  which is canonical; of all bytes that are read as it, no
  others are.
-/
theorem reads_exactly
    (type : IntType) :
    (∀ bytes n,
      (∃ i, decode? type bytes = some i ∧ i.toInt = n) ↔
        Spells type bytes n ∧
        type.least ≤ n ∧
        n ≤ type.greatest) ∧
    (∀ i : Integer type,
      decode? type (Text.encode i.text) = some i) ∧
    ∀ bytes i,
      decode? type bytes = some i →
      (IsCanonical bytes ↔ bytes = Text.encode i.text) := by
  refine ⟨?_, decode?_encode_text, ?_⟩
  · intro bytes n
    constructor
    · rintro ⟨i, hDecode, rfl⟩
      exact ⟨decode?_eq_some_iff.mp hDecode, i.least_le,
        i.le_greatest⟩
    · rintro ⟨hSpells, hLeast, hGreatest⟩
      let i : Integer type := ⟨n, hLeast, hGreatest⟩
      exact ⟨i, decode?_eq_some_iff.mpr hSpells, rfl⟩
  · intro bytes i hDecode
    exact isCanonical_iff_of_spells
      (decode?_eq_some_iff.mp hDecode)

/- The least number of 8 bits, with zeros and without. -/
theorem reads_exactly_least :
    let i : Integer .i8 := ⟨-128, by decide, by decide⟩
    let padded : Bytes := [0x2D, 0x30, 0x30, 0x31, 0x32, 0x38]
    let short : Bytes := [0x2D, 0x31, 0x32, 0x38]
    decode? .i8 padded = some i ∧
    padded ≠ Text.encode i.text ∧
    decode? .i8 short = some i ∧
    short = Text.encode i.text := by
  intro i padded short
  rcases reads_exactly .i8 with ⟨hReads, _, hCanonical⟩
  have hDecode {digits : Bytes}
      (hDecimal : digits.IsDecimal)
      (hValue : digits.decimalValue = 128) :
      decode? .i8 (0x2D :: digits) = some i := by
    have hSpells :
        Spells .i8 (0x2D :: digits) (-digits.decimalValue) :=
      .minus rfl hDecimal
    rw [hValue] at hSpells
    rcases (hReads _ _).mpr ⟨hSpells, by decide, by decide⟩
      with ⟨found, hFound, hSame⟩
    have hFoundEq : found = i := Integer.ext hSame
    rwa [hFoundEq] at hFound
  have hPadded : decode? .i8 padded = some i :=
    hDecode (by decide) (by decide)
  have hShort : decode? .i8 short = some i :=
    hDecode (by decide) (by decide)
  refine ⟨hPadded, ?_, hShort, ?_⟩
  · intro hSame
    have hForm := (hCanonical padded i hPadded).mpr hSame
    exact absurd (hForm.noSpareZero rfl) (by decide)
  · exact (hCanonical short i hShort).mp
      ⟨by decide, by decide, by decide⟩

end Integer

end CrdtDoc
