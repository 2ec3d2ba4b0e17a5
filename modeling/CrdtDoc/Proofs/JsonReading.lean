import CrdtDoc.Json.Map
import CrdtDoc.Json.Path
import CrdtDoc.Proofs.FreshMap
import CrdtDoc.Proofs.IntegerText
import CrdtDoc.Proofs.JsonText
import Mathlib.Data.List.TakeWhile

/-
  This file shows that readers of JSON find the values that
  JSON was written from.  They do so unless more lists and
  objects stand within each other than may be entered, and
  then they find nothing.

  Key definitions include:
    * `Json.depth`
    * `Json.Reader.Recovers`

  Values that are made of others are found in general by:
    * `Json.Reader.recovers_list`
    * `Json.Reader.recovers_entries`
    * `Json.Reader.recovers_record`

  Main declarations:
    * `Json.Reader.Recovers.read?_render`
    * `Json.Reader.recovers_map`
    * `Json.Reader.recovers_location`
-/

namespace CrdtDoc

------------------------------------------------------------
-- Decimal Texts
------------------------------------------------------------

namespace Integer

/- Decimal digits are a number without a sign. -/
theorem isUnsigned_toDigits
    (n : Nat) :
    Json.isUnsigned (Nat.toDigits 10 n) = true := by
  have hDigits :
      ∀ c ∈ Nat.toDigits 10 n, c.isDigit = true :=
    fun c hMem =>
      Nat.isDigit_of_mem_toDigits (by decide) (by decide) hMem
  by_cases hZero : n = 0
  · subst hZero
    decide
  · have hHead := head?_toDigits_ne_zero (by omega : 0 < n)
    unfold Json.isUnsigned
    split
    · rename_i rest hEq
      rw [hEq] at hHead
      exact absurd rfl hHead
    · have hTake := List.takeWhile_eq_self_iff.mpr hDigits
      have hDrop := List.dropWhile_eq_nil_iff.mpr hDigits
      rw [hTake, hDrop, Json.isDigits,
        List.all_eq_true.mpr hDigits]
      simp [Json.isFraction, Json.isExponent]

/- The text of an integer is a number of JSON. -/
theorem isNumber_toString
    (n : Int) :
    Json.isNumber (toString n).toList = true := by
  rw [toList_toString]
  split
  · unfold Json.isNumber
    split
    · rename_i rest hEq
      have hDigit :=
        head?_toDigits_isDigit n.toNat
          (by rw [hEq]; rfl : _ = some '-')
      cases hDigit
    · exact isUnsigned_toDigits _
  · exact isUnsigned_toDigits _

/- The text of an integer is one word. -/
theorem isWordChar_of_mem_toString
    {n : Int}
    {c : Char}
    (hMem : c ∈ (toString n).toList) :
    Json.Token.isWordChar c = true := by
  have hDigit {m : Nat} (hDigits : c ∈ Nat.toDigits 10 m) :
      Json.Token.isWordChar c = true := by
    have hIsDigit : c.isDigit = true :=
      Nat.isDigit_of_mem_toDigits (by decide) (by decide)
        hDigits
    simp [Json.Token.isWordChar, Char.isAlphanum, hIsDigit]
  rw [toList_toString] at hMem
  split at hMem
  · exact hDigit hMem
  · rcases List.mem_cons.mp hMem with hMinus | hDigits
    · subst hMinus
      decide
    · exact hDigit hDigits

/- Zero is written without a sign. -/
theorem toString_ne_minus_zero
    (n : Int) :
    (toString n).toList ≠ ['-', '0'] := by
  intro hText
  have hZero : n = 0 := by
    have hSpelled := number?_toString n
    rw [hText] at hSpelled
    exact (Option.some.inj hSpelled).symm
  subst hZero
  cases hText

end Integer

namespace Json

------------------------------------------------------------
-- Texts
------------------------------------------------------------

/- A character is found in the piece that it is written as. -/
theorem chars?_ofChar_cons
    (char : Char)
    (rest : List Piece) :
    chars? (Piece.ofChar char :: rest) =
      (chars? rest).map (char :: ·) := by
  unfold Piece.ofChar
  split
  · rename_i hSpecial
    have hSmall : char.toNat < 0xD800 := by
      simp only [isSpecial, Bool.or_eq_true,
        decide_eq_true_eq, beq_iff_eq] at hSpecial
      rcases hSpecial with (hLess | hEq) | hEq
      · omega
      · subst hEq
        decide
      · subst hEq
        decide
    have hHigh : isHigh char.toNat = false := by
      simp only [isHigh, Bool.and_eq_false_iff,
        decide_eq_false_iff_not]
      omega
    have hLow : isLow char.toNat = false := by
      simp only [isLow, Bool.and_eq_false_iff,
        decide_eq_false_iff_not]
      omega
    -- A unit behind it may not be the other half.
    cases rest with
    | nil => simp [chars?, hHigh, hLow, Char.ofNat_toNat]
    | cons piece rest =>
        cases piece <;>
          simp [chars?, hHigh, hLow, Char.ofNat_toNat]
  · rename_i hPlain
    have hVisible : ¬char.toNat < 0x20 := by
      intro hLess
      simp [isSpecial, hLess] at hPlain
    rw [chars?, if_neg hVisible]

/- A text is found in its pieces. -/
theorem text?_quote
    (text : String) :
    text? (quote text) = some text := by
  have hChars (chars : List Char) :
      chars? (chars.map Piece.ofChar) = some chars := by
    induction chars with
    | nil => rfl
    | cons char rest ih =>
        rw [List.map_cons, chars?_ofChar_cons, ih]
        rfl
  rw [text?, quote, hChars, Option.map_some,
    String.ofList_toList]

/- The pieces of a text are found again in its own text. -/
theorem isWritten_of_mem_quote
    {text : String}
    {piece : Piece}
    (hMem : piece ∈ quote text) :
    piece.IsWritten := by
  rcases List.mem_map.mp hMem with ⟨char, _, hPiece⟩
  subst hPiece
  unfold Piece.ofChar
  split
  · rename_i hSpecial
    simp only [isSpecial, Bool.or_eq_true,
      decide_eq_true_eq, beq_iff_eq] at hSpecial
    rcases hSpecial with (hLess | hEq) | hEq
    · exact Nat.lt_trans hLess (by decide)
    · subst hEq
      exact (by decide : '"'.toNat < 65536)
    · subst hEq
      exact (by decide : '\\'.toNat < 65536)
  · rename_i hPlain
    simp only [isSpecial, Bool.or_eq_true, beq_iff_eq,
      not_or] at hPlain
    exact ⟨hPlain.1.2, hPlain.2⟩

------------------------------------------------------------
-- Depths
------------------------------------------------------------

mutual
/- The number of lists and objects within each other. -/
def depth : Json → Nat
  | .list items => itemsDepth items + 1
  | .object members => membersDepth members + 1
  | _ => 0

/- The greatest depth of an item. -/
def itemsDepth : List Json → Nat
  | [] => 0
  | item :: rest => max item.depth (itemsDepth rest)

/- The greatest depth of a member. -/
def membersDepth : List (List Piece × Json) → Nat
  | [] => 0
  | (_, value) :: rest => max value.depth (membersDepth rest)
end

/- An object is as deep as a list of its values. -/
theorem membersDepth_eq
    (members : List (List Piece × Json)) :
    membersDepth members =
      itemsDepth (members.map Prod.snd) := by
  induction members with
  | nil => rfl
  | cons member rest ih =>
      rw [membersDepth, ih, List.map_cons, itemsDepth]

/- A record is one deeper than its deepest part. -/
theorem depth_ofFields
    (fields : List (String × Json)) :
    (ofFields fields).depth =
      itemsDepth (fields.map Prod.snd) + 1 := by
  rw [ofFields, depth, membersDepth_eq, List.map_map]
  rfl

/- What is needed for one step is needed for all. -/
theorem bind_ite_le
    {α β : Type}
    (a depth : Nat)
    (value : α)
    (next : α → Option β) :
    (if a ≤ depth then some value else none).bind next =
      if a ≤ depth then next value else none := by
  split <;> rfl

/- The greater of two depths is what two steps need. -/
theorem ite_le_ite_le
    {α : Type}
    (a b depth : Nat)
    (found : Option α) :
    (if a ≤ depth then
        if b ≤ depth then found else none
      else none) =
      if max a b ≤ depth then found else none := by
  rw [← ite_and]
  exact if_congr Nat.max_le.symm rfl rfl

/- Several values need what the deepest of them does. -/
theorem mapM_map_eq
    {α β : Type}
    {write : α → β}
    {json : α → Json}
    {read : β → Option α}
    {depth : Nat}
    {values : List α}
    (hRead :
      ∀ value ∈ values,
        read (write value) =
          if (json value).depth ≤ depth then some value
          else none) :
    (values.map write).mapM read =
      if itemsDepth (values.map json) ≤ depth then some values
      else none := by
  induction values with
  | nil => rfl
  | cons value rest ih =>
      rcases List.forall_mem_cons.mp hRead
        with ⟨hFirst, hRest⟩
      rw [List.map_cons, List.mapM_cons, hFirst, ih hRest,
        List.map_cons, itemsDepth]
      simp only [Option.bind_eq_bind, bind_ite_le,
        ite_le_ite_le]
      rfl

------------------------------------------------------------
-- Readers
------------------------------------------------------------

/-
  A reader finds a value in the JSON that it is written as,
  and in the text of that, unless it goes too deep.
-/
structure Reader.Recovers
    {α : Type}
    (reader : Reader α)
    (json : Json)
    (value : α) : Prop where
  written : json.IsWritten
  read :
    ∀ depth,
      reader depth json =
        if json.depth ≤ depth then some value else none

namespace Reader

variable {α β : Type}

/- A value is found in its text if that is not too deep. -/
theorem Recovers.read?_render
    {reader : Reader α}
    {json : Json}
    {value : α}
    (hRecovers : reader.Recovers json value) :
    reader.read? json.render =
      if json.depth ≤ 127 then some value else none := by
  rw [read?, parse?_render hRecovers.written,
    Option.bind_some, hRecovers.read]

/- A plain value is found at any depth. -/
theorem recovers_of_plain
    {reader : Reader α}
    {json : Json}
    {value : α}
    (hWritten : json.IsWritten)
    (hDepth : json.depth = 0)
    (hRead : ∀ depth, reader depth json = some value) :
    reader.Recovers json value := by
  refine ⟨hWritten, ?_⟩
  intro depth
  rw [hDepth, if_pos (Nat.zero_le depth), hRead]

/- A list or an object is found where it can be entered. -/
theorem recovers_of_entered
    {reader : Reader α}
    {json : Json}
    {value : α}
    {inner : Nat}
    (hWritten : json.IsWritten)
    (hDepth : json.depth = inner + 1)
    (hNone : reader 0 json = none)
    (hRead :
      ∀ depth,
        reader (depth + 1) json =
          if inner ≤ depth then some value else none) :
    reader.Recovers json value := by
  refine ⟨hWritten, ?_⟩
  intro depth
  rw [hDepth]
  cases depth with
  | zero => rw [if_neg (Nat.not_succ_le_zero _), hNone]
  | succ depth =>
      rw [hRead]
      exact if_congr Nat.succ_le_succ_iff.symm rfl rfl

------------------------------------------------------------
-- Plain Values
------------------------------------------------------------

/- A text is found. -/
theorem recovers_text
    (value : String) :
    text.Recovers (ofText value) value := by
  refine recovers_of_plain ?_ rfl fun _ => text?_quote value
  rw [ofText, IsWritten]
  exact fun _ hMem => isWritten_of_mem_quote hMem

/- A state of a flag is found. -/
theorem recovers_bool
    (value : Bool) :
    bool.Recovers (.bool value) value := by
  refine recovers_of_plain ?_ rfl fun _ => rfl
  rw [IsWritten]
  · trivial
  all_goals rintro _ ⟨⟩

/- An integer is found. -/
theorem recovers_integer
    {type : IntType}
    (i : Integer type) :
    (integer type).Recovers (ofInteger i) i := by
  refine recovers_of_plain ?_ rfl ?_
  · rw [ofInteger, IsWritten]
    exact ⟨Integer.isNumber_toString i.toInt,
      fun _ hMem => Integer.isWordChar_of_mem_toString hMem⟩
  · intro depth
    have hSign : (Integer.text i).toList ≠ ['-', '0'] :=
      Integer.toString_ne_minus_zero i.toInt
    rw [ofInteger, integer, if_neg hSign,
      String.ofList_toList, Integer.parse?_text]

/- A byte is found. -/
theorem recovers_byte
    (value : UInt8) :
    byte.Recovers (ofByte value) value := by
  have hInteger := recovers_integer (Integer.ofByte value)
  refine recovers_of_plain hInteger.written rfl ?_
  intro depth
  have hDepth : (ofInteger (Integer.ofByte value)).depth = 0 :=
    rfl
  rw [byte, ofByte, hInteger.read, hDepth,
    if_pos (Nat.zero_le depth), Option.map_some,
    Integer.toByte_ofByte]

------------------------------------------------------------
-- Lists
------------------------------------------------------------

/- A list is found if all its items are. -/
theorem recovers_list
    {item : Reader α}
    {write : α → Json}
    {values : List α}
    (hItems :
      ∀ value ∈ values, item.Recovers (write value) value) :
    (list item).Recovers (.list (values.map write))
      values := by
  refine recovers_of_entered ?_ rfl rfl ?_
  · rw [IsWritten, areWritten_iff, List.forall_mem_map]
    exact fun value hMem => (hItems value hMem).written
  · intro depth
    exact mapM_map_eq fun value hMem =>
      (hItems value hMem).read depth

/- A byte string is found. -/
theorem recovers_bytes
    (value : Bytes) :
    bytes.Recovers (ofBytes value) value :=
  recovers_list fun byte _ => recovers_byte byte

/- Byte strings are found in their order. -/
theorem recovers_members
    (members : List Bytes) :
    (list bytes).Recovers (ofMembers members) members :=
  recovers_list fun member _ => recovers_bytes member

/- A pair is found if both its parts are. -/
theorem recovers_pair
    {first : Reader α}
    {second : Reader β}
    {a b : Json}
    {left : α}
    {right : β}
    (hLeft : first.Recovers a left)
    (hRight : second.Recovers b right) :
    (pair first second).Recovers (.list [a, b])
      (left, right) := by
  refine recovers_of_entered ?_ rfl rfl ?_
  · rw [IsWritten, AreWritten, AreWritten, AreWritten]
    exact ⟨hLeft.written, hRight.written, trivial⟩
  · intro depth
    rw [pair, hLeft.read, hRight.read, itemsDepth, itemsDepth,
      itemsDepth, Nat.max_zero]
    simp only [Option.bind_eq_bind, bind_ite_le,
      ite_le_ite_le]
    rfl

------------------------------------------------------------
-- Objects
------------------------------------------------------------

/- The value of an object is written if its parts are. -/
theorem isWritten_ofFields
    {fields : List (String × Json)}
    (hFields : ∀ field ∈ fields, field.2.IsWritten) :
    (ofFields fields).IsWritten := by
  rw [ofFields, IsWritten, haveWritten_iff,
    List.forall_mem_map]
  exact fun field hMem =>
    ⟨fun _ hPiece => isWritten_of_mem_quote hPiece,
      hFields field hMem⟩

/- A section is found if all its values are. -/
theorem recovers_entries
    {item : Reader α}
    {write : α → Json}
    {values : Entries α}
    (hAscending : values.Ascending)
    (hValues :
      ∀ entry ∈ values,
        item.Recovers (write entry.2) entry.2) :
    (entries item).Recovers (ofEntries write values)
      values := by
  -- Names are listed in their order, so none is moved.
  have hOrdered : Entries.ofList values = values :=
    @Update.overwrite_eq_append _ [] values hAscending
  have hMembers :
      ofEntries write values =
        .object (values.map fun entry =>
          (quote entry.1, write entry.2)) := by
    rw [ofEntries, ofFields, List.map_map]
    rfl
  have hDepth :
      (ofEntries write values).depth =
        itemsDepth
          (values.map fun entry => write entry.2) + 1 := by
    rw [ofEntries, depth_ofFields, List.map_map]
    rfl
  refine recovers_of_entered ?_ hDepth ?_ ?_
  · rw [ofEntries]
    apply isWritten_ofFields
    rw [List.forall_mem_map]
    exact fun entry hMem => (hValues entry hMem).written
  · rw [hMembers]
    rfl
  · intro depth
    let named (member : List Piece × Json) :
        Option (String × α) := do
      return (← text? member.1, ← item depth member.2)
    have hNamed :
        ∀ entry ∈ values,
          named (quote entry.1, write entry.2) =
            if (write entry.2).depth ≤ depth then some entry
            else none := by
      intro entry hMem
      simp only [named, text?_quote,
        (hValues entry hMem).read, Option.bind_eq_bind,
        Option.bind_some, bind_ite_le]
      rfl
    have hAll := mapM_map_eq hNamed
    -- The reader takes a member apart, `named` looks at it.
    rw [hMembers]
    change (List.mapM named _ >>= _) = _
    rw [hAll, Option.bind_eq_bind, bind_ite_le, hOrdered]
    rfl

/- Parts with different names are put to the parts before. -/
theorem foldlM_addPart
    {names : List String}
    {fields : List (String × Json)}
    (hNames : ∀ field ∈ fields, field.1 ∈ names)
    (hDistinct : (fields.map Prod.fst).Nodup)
    {before : Parts}
    (hBefore :
      ∀ field ∈ fields, before.lookup field.1 = none) :
    (fields.map fun (name, value) =>
        (quote name, value)).foldlM (addPart names) before =
      some (fields.reverse ++ before) := by
  induction fields generalizing before with
  | nil => rfl
  | cons field rest ih =>
      rcases field with ⟨name, value⟩
      rcases List.forall_mem_cons.mp hNames
        with ⟨hName, hNamesRest⟩
      rcases List.forall_mem_cons.mp hBefore
        with ⟨hNew, hBeforeRest⟩
      rcases List.nodup_cons.mp hDistinct
        with ⟨hOther, hDistinctRest⟩
      have hStep :
          addPart names before (quote name, value) =
            some ((name, value) :: before) := by
        simp [addPart, text?_quote, hName, hNew]
      have hAfter :
          ∀ field ∈ rest,
            List.lookup field.1 ((name, value) :: before) =
              none := by
        intro field hMem
        have hNe : field.1 ≠ name := by
          intro hEq
          have hIn : field.1 ∈ rest.map Prod.fst :=
            List.mem_map_of_mem hMem
          rw [hEq] at hIn
          exact hOther hIn
        rw [List.lookup_cons, beq_eq_false_iff_ne.mpr hNe]
        exact hBeforeRest field hMem
      rw [List.map_cons, List.foldlM_cons, hStep]
      refine (ih hNamesRest hDistinctRest hAfter).trans ?_
      rw [List.reverse_cons, List.append_assoc]
      rfl

/- A part stands under its name, wherever others stand. -/
theorem lookup_reverse
    {fields : List (String × Json)}
    (hDistinct : (fields.map Prod.fst).Nodup) :
    ∀ field ∈ fields,
      List.lookup field.1 fields.reverse = some field.2 := by
  induction fields with
  | nil => exact List.forall_mem_nil _
  | cons first rest ih =>
      rcases List.nodup_cons.mp hDistinct
        with ⟨hOther, hRest⟩
      intro field hMem
      rw [List.reverse_cons, List.lookup_append]
      rcases List.mem_cons.mp hMem with hEq | hMem
      · subst hEq
        have hNone :
            List.lookup field.1 rest.reverse = none := by
          rw [List.lookup_eq_none_iff]
          intro other hIn
          rw [bne_iff_ne]
          intro hSame
          rw [hSame] at hOther
          exact hOther
            (List.mem_map_of_mem (List.mem_reverse.mp hIn))
        rw [hNone, Option.none_or, List.lookup_cons,
          beq_self_eq_true]
      · rw [ih hRest field hMem, Option.some_or]

/- A record is found if it is built from all its parts. -/
theorem recovers_record
    {names : List String}
    {fields : List (String × Json)}
    {build : Nat → Parts → Option α}
    {value : α}
    (hNames : fields.map Prod.fst = names)
    (hDistinct : names.Nodup)
    (hFields : ∀ field ∈ fields, field.2.IsWritten)
    (hBuild :
      ∀ depth parts,
        (∀ field ∈ fields,
          List.lookup field.1 parts = some field.2) →
        build depth parts =
          if itemsDepth (fields.map Prod.snd) ≤ depth then
            some value
          else none) :
    (record names build).Recovers (ofFields fields)
      value := by
  subst hNames
  have hParts :
      parts? (fields.map Prod.fst) (ofFields fields) =
        some fields.reverse := by
    have hFold :=
      @foldlM_addPart (fields.map Prod.fst) fields
        (fun _ hMem => List.mem_map_of_mem hMem) hDistinct
        [] (fun _ _ => rfl)
    rw [List.append_nil] at hFold
    exact hFold
  refine recovers_of_entered (isWritten_ofFields hFields)
    (depth_ofFields fields) rfl ?_
  intro depth
  rw [record, hParts, Option.bind_some,
    hBuild depth _ (lookup_reverse hDistinct)]

------------------------------------------------------------
-- Locations
------------------------------------------------------------

/- A location is found. -/
theorem recovers_location
    (value : Location) :
    location.Recovers (ofLocation value) value := by
  refine recovers_record rfl (by decide) ?_ ?_
  · simp only [List.forall_mem_cons]
    exact ⟨(recovers_text _).written,
      (recovers_text _).written, (recovers_text _).written,
      List.forall_mem_nil _⟩
  · intro depth parts hParts
    simp only [List.forall_mem_cons] at hParts
    rcases hParts with ⟨hBucket, hType, hKey, _⟩
    simp only [required, hBucket, hType, hKey,
      Option.bind_some, (recovers_text _).read,
      Option.bind_eq_bind, bind_ite_le, ite_le_ite_le,
      List.map_cons, List.map_nil, itemsDepth, Nat.max_zero]
    rfl

------------------------------------------------------------
-- Maps
------------------------------------------------------------

/- A map is a record whose maps are read as maps again. -/
theorem map_eq_record
    (depth : Nat)
    (json : Json) :
    map depth json =
      record mapSections (mapOf (entries map)) depth json := by
  match depth with
  | 0 => rw [map, record]
  | 1 =>
      rw [map, record]
      rfl
  | depth + 2 =>
      rw [map, record]
      congr 1
      funext parts
      have hInner (json : Json) :
          entries (fun _ => map depth) 1 json =
            entries map (depth + 1) json := by
        cases json <;> rfl
      simp only [mapOf, orElse, hInner]

/- The maps of a section are written as its values. -/
theorem ofMaps_eq
    (maps : List (String × CrdtMap)) :
    .object (ofMaps maps) = ofEntries ofMap maps := by
  rw [ofEntries, ofFields, List.map_map]
  congr 1
  induction maps with
  | nil => rfl
  | cons entry rest ih =>
      rw [ofMaps, ih]
      rfl

mutual
/- A map whose names are listed in their order is found. -/
theorem recovers_map :
    (value : CrdtMap) →
      value.WellFormed → map.Recovers (ofMap value) value
  | ⟨registers, counters, sets, flags, maps⟩, hWell => by
      rw [CrdtMap.WellFormed] at hWell
      rcases hWell
        with ⟨hRegisters, hCounters, hSets, _, hFlags, hMaps,
          hAll⟩
      have hBytes :=
        recovers_entries hRegisters fun entry _ =>
          recovers_bytes entry.2
      have hIntegers :=
        recovers_entries hCounters fun entry _ =>
          recovers_integer entry.2
      have hMembers :=
        recovers_entries hSets fun entry _ =>
          recovers_members entry.2
      have hStates :=
        recovers_entries hFlags fun entry _ =>
          recovers_bool entry.2
      have hInner :=
        recovers_entries hMaps (recovers_maps maps hAll)
      rw [← ofMaps_eq] at hInner
      have hRecord :
          (record mapSections (mapOf (entries map))).Recovers
            (ofMap ⟨registers, counters, sets, flags, maps⟩)
            ⟨registers, counters, sets, flags, maps⟩ := by
        rw [ofMap]
        refine recovers_record rfl (by decide) ?_ ?_
        · simp only [List.forall_mem_cons]
          exact ⟨hBytes.written, hIntegers.written,
            hMembers.written, hStates.written,
            hInner.written, List.forall_mem_nil _⟩
        · intro depth parts hParts
          simp only [List.forall_mem_cons] at hParts
          rcases hParts with ⟨hFirst, hSecond, hThird,
            hFourth, hFifth, _⟩
          simp only [mapOf, section?, orElse, hFirst, hSecond,
            hThird, hFourth, hFifth, hBytes.read,
            hIntegers.read, hMembers.read, hStates.read,
            hInner.read, Option.bind_eq_bind, bind_ite_le,
            ite_le_ite_le, List.map_cons, List.map_nil,
            itemsDepth, Nat.max_zero]
          rfl
      exact ⟨hRecord.written, fun depth =>
        (map_eq_record depth _).trans (hRecord.read depth)⟩

/- So are all maps of a section. -/
theorem recovers_maps :
    (maps : List (String × CrdtMap)) →
      CrdtMap.AllWellFormed maps →
      ∀ entry ∈ maps, map.Recovers (ofMap entry.2) entry.2
  | [], _ => List.forall_mem_nil _
  | (name, value) :: rest, hWell => by
      rw [CrdtMap.AllWellFormed] at hWell
      exact List.forall_mem_cons.mpr
        ⟨recovers_map value hWell.1, recovers_maps rest hWell.2⟩
end

end Reader

end Json

end CrdtDoc
