import CrdtDoc.Table

/-
  Decimal texts spell the integers that they were made of,
  so that an integer is found again in a stored text, and a
  key in the name of a stored entry.

  Main declarations:
    * `Integer.parse?_text`
    * `Integer.decode?_encode_text`
    * `KeyType.parse?_written`
    * `KeyType.written_injective`
-/

------------------------------------------------------------
-- Decimal Digits
------------------------------------------------------------

namespace CrdtDoc

namespace Integer

/- Digits are read one after the other. -/
theorem digitsFrom?_append
    (n : Nat)
    (left right : List Char) :
    digitsFrom? n (left ++ right) =
      (digitsFrom? n left).bind
        (digitsFrom? · right) := by
  induction left generalizing n with
  | nil => rfl
  | cons c rest ih =>
      rw [List.cons_append, digitsFrom?, digitsFrom?]
      split
      · exact ih _
      · rfl

/- A single digit has its own value. -/
theorem digitsFrom?_digitChar
    (n : Nat)
    {digit : Nat}
    (hDigit : digit < 10) :
    digitsFrom? n [digit.digitChar] =
      some (n * 10 + digit) := by
  have hIsDigit : digit.digitChar.isDigit = true := by
    rw [Nat.isDigit_digitChar, decide_eq_true hDigit]
  have hValue := Nat.toNat_digitChar_of_lt_ten hDigit
  rw [digitsFrom?, if_pos hIsDigit, hValue,
    Nat.add_sub_cancel_left]
  rfl

/- The decimal digits of a number spell it. -/
theorem digitsFrom?_toDigits
    (n : Nat) :
    digitsFrom? 0 (Nat.toDigits 10 n) = some n := by
  induction n using Nat.strongRecOn with
  | ind n ih =>
      by_cases hSmall : n < 10
      · rw [Nat.toDigits_of_lt_base hSmall,
          digitsFrom?_digitChar 0 hSmall]
        simp
      · have hLess : n / 10 < n := by
          omega
        rw [Nat.toDigits_of_base_le (by decide) (by omega),
          digitsFrom?_append, ih (n / 10) hLess]
        have hDigit : n % 10 < 10 := by
          omega
        rw [Option.bind_some,
          digitsFrom?_digitChar _ hDigit]
        congr 1
        omega

/- There is no number without digits. -/
theorem toDigits_ne_nil
    (n : Nat) :
    Nat.toDigits 10 n ≠ [] := by
  intro hNil
  have hRead := digitsFrom?_toDigits n
  by_cases hSmall : n < 10
  · rw [Nat.toDigits_of_lt_base hSmall] at hNil
    cases hNil
  · rw [Nat.toDigits_of_base_le (by decide) (by omega)]
      at hNil
    simp at hNil

/- The first digit of a number is no sign. -/
theorem head?_toDigits_isDigit
    (n : Nat)
    {c : Char}
    (hHead : (Nat.toDigits 10 n).head? = some c) :
    c.isDigit = true :=
  Nat.isDigit_of_mem_toDigits (by decide) (by decide)
    (List.mem_of_head? hHead)

/- The digits of a number other than zero begin with none. -/
theorem head?_toDigits_ne_zero
    {n : Nat}
    (hPos : 0 < n) :
    (Nat.toDigits 10 n).head? ≠ some '0' := by
  induction n using Nat.strongRecOn with
  | ind n ih =>
      by_cases hSmall : n < 10
      · have hAll :
            ∀ d < 10, 0 < d → d.digitChar ≠ '0' := by
          decide
        rw [Nat.toDigits_of_lt_base hSmall]
        intro hHead
        exact hAll n hSmall hPos (Option.some.inj hHead)
      · have hLess : n / 10 < n := by
          omega
        have hTail : 0 < n / 10 := by
          omega
        have hFirst := ih (n / 10) hLess hTail
        rw [Nat.toDigits_of_base_le (by decide) (by omega)]
        cases hDigits : Nat.toDigits 10 (n / 10) with
        | nil => exact absurd hDigits (toDigits_ne_nil _)
        | cons c rest =>
            rw [hDigits] at hFirst
            exact hFirst

/- Digits without a sign spell a natural number. -/
theorem digits?_toDigits
    (n : Nat) :
    digits? (Nat.toDigits 10 n) = some n := by
  cases hDigits : Nat.toDigits 10 n with
  | nil => exact absurd hDigits (toDigits_ne_nil n)
  | cons c rest =>
      rw [digits?, ← hDigits]
      · exact digitsFrom?_toDigits n
      · simp

------------------------------------------------------------
-- Decimal Texts
------------------------------------------------------------

/- The characters of an integer's text. -/
theorem toList_toString
    (n : Int) :
    (toString n).toList =
      if 0 ≤ n then Nat.toDigits 10 n.toNat
      else '-' :: Nat.toDigits 10 n.natAbs := by
  cases n with
  | ofNat m =>
      have hPos : (0 : Int) ≤ Int.ofNat m := by
        exact Int.natCast_nonneg m
      rw [if_pos hPos]
      exact String.toList_ofList
  | negSucc m =>
      have hNeg : ¬(0 : Int) ≤ Int.negSucc m := by
        exact Int.not_le.mpr (Int.negSucc_lt_zero m)
      rw [if_neg hNeg]
      change ("-" ++ (m + 1).repr).toList = _
      rw [String.toList_append, Nat.toList_repr]
      rfl

/- Digits behind a minus are read as the negative number. -/
theorem number?_minus
    (rest : List Char) :
    number? ('-' :: rest) =
      (digits? rest).map fun n => -Int.ofNat n := by
  rw [number?]
  cases digits? rest <;> rfl

/- What begins with a digit is read without a sign. -/
theorem number?_of_isDigit
    {chars : List Char}
    (hHead :
      ∀ c, chars.head? = some c → c.isDigit = true) :
    number? chars = (digits? chars).map Int.ofNat := by
  unfold number?
  split
  · exact absurd (hHead '+' rfl) (by decide)
  · exact absurd (hHead '-' rfl) (by decide)
  · rfl

/- The text of a number spells it. -/
theorem number?_toString
    (n : Int) :
    number? (toString n).toList = some n := by
  rw [toList_toString]
  split
  · rename_i hPos
    have hHead (c : Char)
        (hFirst :
          (Nat.toDigits 10 n.toNat).head? = some c) :
        c.isDigit = true :=
      head?_toDigits_isDigit n.toNat hFirst
    rw [number?_of_isDigit hHead, digits?_toDigits,
      Option.map_some]
    exact congrArg some (Int.toNat_of_nonneg hPos)
  · rw [number?_minus, digits?_toDigits, Option.map_some]
    congr 1
    change -(n.natAbs : Int) = n
    omega

/- A number without negatives has a text without `-`. -/
theorem head?_toString_ne_minus
    {n : Int}
    (hPos : 0 ≤ n) :
    (toString n).toList.head? ≠ some '-' := by
  intro hHead
  rw [toList_toString, if_pos hPos] at hHead
  have hDigit := head?_toDigits_isDigit n.toNat hHead
  cases hDigit

/- The text of an integer is read as that integer. -/
theorem parse?_text
    {type : IntType}
    (i : Integer type) :
    parse? type i.text = some i := by
  have hSigned :
      ¬((text i).toList.head? = some '-' ∧
        ¬type.isSigned = true) := by
    rintro ⟨hHead, hUnsigned⟩
    have hPos : 0 ≤ i.toInt := by
      have hLeast := i.least_le
      cases type <;>
        simp_all [IntType.isSigned, IntType.least]
    exact head?_toString_ne_minus hPos hHead
  unfold parse?
  rw [if_neg hSigned]
  unfold text
  rw [number?_toString, Option.bind_some,
    ofInt?_eq_some_iff]

/- An integer is found again in its stored text. -/
theorem decode?_encode_text
    {type : IntType}
    (i : Integer type) :
    decode? type (Text.encode i.text) = some i := by
  unfold decode?
  rw [Text.decode?_eq_some_iff.mpr rfl, Option.bind_some,
    parse?_text]

end Integer

------------------------------------------------------------
-- Keys
------------------------------------------------------------

namespace KeyType

/- A key is found again in the name it is stored under. -/
theorem parse?_written
    (key : KeyType)
    (k : key.Value) :
    key.parse? (key.written k) = some k := by
  cases key with
  | int type => exact Integer.parse?_text k
  | text => rfl

/- Different keys are stored under different names. -/
theorem written_injective
    (key : KeyType)
    {a b : key.Value}
    (hName : key.written a = key.written b) :
    a = b := by
  have hParsed := congrArg key.parse? hName
  rw [parse?_written, parse?_written] at hParsed
  exact Option.some.inj hParsed

end KeyType

end CrdtDoc
