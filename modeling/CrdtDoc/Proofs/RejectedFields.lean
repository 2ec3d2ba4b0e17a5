import CrdtDoc.Proofs.FirstFailure
import CrdtDoc.Proofs.SlotFilling
import CrdtDoc.Proofs.Storable

/-
  This file shows which documents cannot be written, and for
  which of their fields.

  Writing a document walks through its fields in the order
  of their declaration, and within them through those of
  nested documents and of the entries of tables.  It fails
  at the first field that has no stored form, and there it
  names the field and what is not stored of it.

  Key definitions include:
    * `Visit`
    * `Schema.walk`
    * `Visit.Rejected`

  Main declarations:
    * `Visit.rejection?_eq_some_iff`
    * `FieldType.failure?_encode`
    * `Schema.failure?_encode`
    * `Schema.rejected_of_encodeDocument`
-/

namespace CrdtDoc

------------------------------------------------------------
-- The Walk
------------------------------------------------------------

/- A value that is written under a name, as one field. -/
structure Visit where
  name : String
  type : FieldType
  value : type.Value

mutual
/- The fields that writing a value walks through. -/
def FieldType.walk :
    (type : FieldType) → type.Value → String → List Visit
  | .document schema, document, _ => schema.walk document
  | .table _ key value, table, _ =>
      (Table.entries table).flatMap fun entry =>
        value.walk entry.2 (key.written entry.1)
  | type, value, name => [⟨name, type, value⟩]

/- The fields that writing a document walks through. -/
def Schema.walk :
    (schema : Schema) → schema.Document → List Visit
  | .nil, _ => []
  | .stored _ name type rest, (value, values) =>
      type.walk value name ++ rest.walk values
  | .skipped _ _ rest, (_, values) => rest.walk values
  | .context _ rest, (_, values) => rest.walk values
end

/-
  A field has no stored form: a floating-point number or a
  single character, a list of those or of flags, a list that
  has a list or array of no bytes, or an array with elements
  that are no bytes.
-/
inductive Visit.Rejected : Visit → CodecError → Prop where
  | float32 (name : String) (value : Float32) :
      Rejected ⟨name, .float32, value⟩
        (.unexpectedKind name "f32")
  | float64 (name : String) (value : Float) :
      Rejected ⟨name, .float64, value⟩
        (.unexpectedKind name "f64")
  | char (name : String) (value : Char) :
      Rejected ⟨name, .char, value⟩
        (.unexpectedKind name "char")
  | list
      (name : String)
      {element : Element}
      (hElement :
        element ∈ [.bool, .float32, .float64, .char])
      (items : List element.Value) :
      Rejected ⟨name, .list element, items⟩
        (.unexpectedKind name element.name)
  | listOfLists
      (name : String)
      {element : Element}
      (hElement : element ≠ .int .u8)
      {items : List (List element.Value)}
      (hItems : items ≠ []) :
      Rejected ⟨name, .list (.list element), items⟩
        (.nestedElement name element.name)
  | listOfArrays
      (name : String)
      {element : Element}
      (hElement : element ≠ .int .u8)
      {length : Nat}
      {items : List (Element.Sized element.Value length)}
      (hItems : items ≠ []) :
      Rejected ⟨name, .list (.array element length), items⟩
        (.nestedElement name element.name)
  | array
      (name : String)
      {element : Element}
      (hElement : element ≠ .int .u8)
      {length : Nat}
      (hLength : 0 < length)
      (items : Element.Sized element.Value length) :
      Rejected ⟨name, .array element length, items⟩
        (.arrayElement name element.name)

------------------------------------------------------------
-- Rejections
------------------------------------------------------------

/- Why a list with or without elements is not stored. -/
def Element.rejection?
    (element : Element)
    (name : String)
    (isEmpty : Bool) : Option CodecError :=
  match element with
  | .int _ | .text => none
  | .bool | .float32 | .float64 | .char =>
      some (.unexpectedKind name element.name)
  | .list inner | .array inner _ =>
      if inner.shape = .byte ∨ isEmpty then none
      else some (.nestedElement name inner.name)

/- Why a field is not stored, if it is not. -/
def Visit.rejection? : Visit → Option CodecError
  | ⟨name, .float32, _⟩ => some (.unexpectedKind name "f32")
  | ⟨name, .float64, _⟩ => some (.unexpectedKind name "f64")
  | ⟨name, .char, _⟩ => some (.unexpectedKind name "char")
  | ⟨name, .list element, items⟩ =>
      element.rejection? name (List.isEmpty items)
  | ⟨name, .array element length, _⟩ =>
      if length = 0 ∨ element.shape = .byte then none
      else some (.arrayElement name element.name)
  | _ => none

/- A list is rejected for the reason that it has. -/
theorem Element.rejected_of_rejection?
    {element : Element}
    {name : String}
    {items : List element.Value}
    {error : CodecError}
    (hReason :
      element.rejection? name items.isEmpty = some error) :
    Visit.Rejected ⟨name, .list element, items⟩ error := by
  have hItems :
      ∀ inner : Element,
        (if inner.shape = .byte ∨ items.isEmpty = true then
            none
          else
            some (CodecError.nestedElement name inner.name)) =
          some error →
        inner ≠ .int .u8 ∧ items ≠ [] ∧
          error = .nestedElement name inner.name := by
    intro inner hInner
    split at hInner
    · cases hInner
    · rename_i hNot
      rw [not_or, Element.shape_eq_byte_iff,
        List.isEmpty_iff] at hNot
      exact ⟨hNot.1, hNot.2, (Option.some.inj hInner).symm⟩
  cases element with
  | int type => cases hReason
  | text => cases hReason
  | list inner =>
      obtain ⟨hInner, hFilled, rfl⟩ := hItems inner hReason
      exact .listOfLists name hInner hFilled
  | array inner length =>
      obtain ⟨hInner, hFilled, rfl⟩ := hItems inner hReason
      exact .listOfArrays name hInner hFilled
  | _ =>
      cases hReason
      exact .list name (by decide) items

/- A field is rejected for the reason that it has. -/
theorem Visit.rejection?_eq_some_iff
    {visit : Visit}
    {error : CodecError} :
    visit.rejection? = some error ↔ visit.Rejected error := by
  constructor
  · obtain ⟨name, type, value⟩ := visit
    intro hReason
    cases type with
    | float32 =>
        cases hReason
        exact .float32 name value
    | float64 =>
        cases hReason
        exact .float64 name value
    | char =>
        cases hReason
        exact .char name value
    | list element =>
        exact Element.rejected_of_rejection? hReason
    | array element length =>
        simp only [rejection?] at hReason
        split at hReason
        · cases hReason
        · rename_i hNot
          rw [not_or, Element.shape_eq_byte_iff] at hNot
          cases hReason
          exact .array name hNot.2 (Nat.pos_of_ne_zero hNot.1)
            value
    | _ => cases hReason
  · intro hRejected
    cases hRejected with
    | float32 => rfl
    | float64 => rfl
    | char => rfl
    | list name hElement items =>
        simp only [List.mem_cons, List.not_mem_nil, or_false]
          at hElement
        rcases hElement with rfl | rfl | rfl | rfl <;> rfl
    | listOfLists name hElement hItems =>
        refine if_neg ?_
        rw [not_or, Element.shape_eq_byte_iff]
        exact ⟨hElement,
          fun hEmpty => hItems (List.isEmpty_iff.mp hEmpty)⟩
    | listOfArrays name hElement hItems =>
        refine if_neg ?_
        rw [not_or, Element.shape_eq_byte_iff]
        exact ⟨hElement,
          fun hEmpty => hItems (List.isEmpty_iff.mp hEmpty)⟩
    | array name hElement hLength items =>
        refine if_neg ?_
        rw [not_or, Element.shape_eq_byte_iff]
        exact ⟨Nat.ne_of_gt hLength, hElement⟩

------------------------------------------------------------
-- Single Fields
------------------------------------------------------------

/- Why writing a field fails, if it does. -/
def Visit.failure?
    (visit : Visit) : Option EncodeFailure :=
  visit.rejection?.map .codec

variable {update : Update} {name : String}

/- Where a write is made, there is no failure. -/
theorem failure?_of_exists
    {ε α : Type}
    {Made : α → Prop}
    {result : Except ε α}
    (hResult : ∃ value, result = .ok value ∧ Made value) :
    failure? result = none := by
  rcases hResult with ⟨value, hValue, _⟩
  exact failure?_eq_none_iff.mpr ⟨value, hValue⟩

/- A list of storable elements is written. -/
theorem Update.failure?_writeItems_of_isStorable
    (hEntry : update.entry name = .none)
    {element : Element}
    (hStorable : element.IsStorable)
    (items : List element.Value) :
    CrdtDoc.failure? (update.writeItems name element items) =
      none := by
  rcases hStorable.exists_listStoredAs items name
    with ⟨_, hStored⟩
  exact failure?_eq_none_iff.mpr
    (Update.exists_writeItems hEntry hStored)

/-
  A list of lists or arrays is written if these have bytes
  for elements, or if there are none of them.
-/
theorem Update.failure?_writeItems_of_nested
    (hEntry : update.entry name = .none)
    {element inner : Element}
    (hShape : element.shape = .nested)
    (hStorable : element.IsStorable ↔ inner.shape = .byte)
    (hMember :
      inner.shape ≠ .byte →
        ∀ item, element.toMember name item =
          .error (.nestedElement name inner.name))
    (items : List element.Value) :
    CrdtDoc.failure? (update.writeItems name element items) =
      (if inner.shape = .byte ∨ items.isEmpty then none
        else
          some (CodecError.nestedElement name inner.name)).map
        .codec := by
  by_cases hByte : inner.shape = .byte
  · rw [if_pos (Or.inl hByte)]
    exact failure?_writeItems_of_isStorable hEntry
      (hStorable.mpr hByte) items
  · rw [writeItems, hShape]
    cases items with
    | nil =>
        have hNone :
            inner.shape = .byte ∨
              ([] : List element.Value).isEmpty = true :=
          Or.inr rfl
        simp only [if_pos hNone]
        rfl
    | cons item rest =>
        have hNot :
            ¬(inner.shape = .byte ∨
              (item :: rest).isEmpty = true) := by
          simp [hByte]
        have hFirst :
            update.writeElement name element item =
              .error (.codec
                (.nestedElement name inner.name)) := by
          rw [writeElement, hMember hByte item]
          rfl
        simp only [List.foldlM_cons, hFirst, if_neg hNot]
        rfl

/- A list is written where there is nothing, or rejected. -/
theorem Update.failure?_writeItems
    (hEntry : update.entry name = .none)
    (element : Element)
    (items : List element.Value) :
    CrdtDoc.failure? (update.writeItems name element items) =
      (element.rejection? name items.isEmpty).map .codec := by
  cases element with
  | int type =>
      have hStorable : (Element.int type).IsStorable := trivial
      exact failure?_writeItems_of_isStorable hEntry hStorable
        items
  | text =>
      have hStorable : Element.text.IsStorable := trivial
      exact failure?_writeItems_of_isStorable hEntry hStorable
        items
  | list inner =>
      have hMember :
          inner.shape ≠ .byte →
            ∀ item, (Element.list inner).toMember name item =
              .error (.nestedElement name inner.name) :=
        fun hByte _ => if_neg hByte
      exact failure?_writeItems_of_nested hEntry rfl Iff.rfl
        hMember items
  | array inner length =>
      have hMember :
          inner.shape ≠ .byte →
            ∀ item,
              (Element.array inner length).toMember name item =
                .error (.nestedElement name inner.name) :=
        fun hByte _ => if_neg hByte
      exact failure?_writeItems_of_nested hEntry rfl Iff.rfl
        hMember items
  | _ => rfl

/- An array is written where there is nothing, or rejected. -/
theorem Update.failure?_writeArray
    (hEntry : update.entry name = .none)
    (element : Element)
    {length : Nat}
    (items : Element.Sized element.Value length) :
    CrdtDoc.failure?
        (update.writeArray name element items.val) =
      Visit.failure? ⟨name, .array element length, items⟩ := by
  by_cases hStorable : length = 0 ∨ element.shape = .byte
  · have hNone :
        Visit.rejection? ⟨name, .array element length, items⟩ =
          none :=
      if_pos hStorable
    rw [Visit.failure?, hNone]
    exact failure?_eq_none_iff.mpr
      (Update.exists_writeArray hEntry hStorable items)
  · have hError :
        Visit.rejection? ⟨name, .array element length, items⟩ =
          some (.arrayElement name element.name) :=
      if_neg hStorable
    have hFilled :
        items.val.length > 0 ∧ element.shape ≠ .byte := by
      rw [not_or] at hStorable
      rw [items.property]
      exact ⟨Nat.pos_of_ne_zero hStorable.1, hStorable.2⟩
    rw [Visit.failure?, hError, writeArray, if_pos hFilled]
    rfl

------------------------------------------------------------
-- Documents
------------------------------------------------------------

/-
  The entries of a table are written one after the other, so
  the first of them that fails decides.
-/
theorem FieldType.failure?_foldlM_encode
    (type : FieldType)
    (hNames : type.HasDistinctNames)
    (hType :
      ∀ (value : type.Value) (name : String)
        {update : Update},
        update.entry name = .none →
          failure? (type.encode value name update) =
            (type.walk value name).findSome? Visit.failure?)
    {key : KeyType}
    {items : List (key.Value × type.Value)}
    (hKeys : items.Pairwise fun a b => a.1 ≠ b.1)
    {update : Update}
    (hEntries :
      ∀ item ∈ items,
        update.entry (key.written item.1) = .none) :
    failure?
        (items.foldlM
          (fun child item =>
            type.encode item.2 (key.written item.1) child)
          update) =
      items.findSome? fun item =>
        (type.walk item.2 (key.written item.1)).findSome?
          Visit.failure? := by
  -- No name of an entry to come is written by one before.
  let Holds
      (state : Update)
      (left : List (key.Value × type.Value)) : Prop :=
    (left.Pairwise fun a b => a.1 ≠ b.1) ∧
      ∀ item ∈ left,
        state.entry (key.written item.1) = .none
  have hFirst : Holds update items := ⟨hKeys, hEntries⟩
  refine failure?_foldlM ?_ hFirst
  rintro state item rest ⟨hPairs, hFree⟩
  have hEntry := hFree item List.mem_cons_self
  refine ⟨hType item.2 (key.written item.1) hEntry, ?_⟩
  intro next hNext
  rcases type.replaces_of_encode hNames hEntry hNext
    with ⟨_, _, hReplaces⟩
  exact ⟨(List.pairwise_cons.mp hPairs).2,
    hReplaces.entry_of_pairwise hPairs hFree⟩

mutual
/-
  Writing a value where there is nothing fails as the first
  field that it walks through and that is rejected.
-/
theorem FieldType.failure?_encode :
    (type : FieldType) → type.HasDistinctNames →
      (value : type.Value) → (name : String) →
      {update : Update} → update.entry name = .none →
      failure? (type.encode value name update) =
        (type.walk value name).findSome? Visit.failure?
  | .int _, _, value, _, _, hEntry =>
      failure?_of_exists (Update.exists_writeRegister hEntry _)
  | .text, _, value, _, _, hEntry =>
      failure?_of_exists (Update.exists_writeRegister hEntry _)
  | .bool, _, _, _, _, _ => rfl
  | .timestamp, _, value, _, _, hEntry =>
      failure?_of_exists (Update.exists_writeRegister hEntry _)
  | .float32, _, _, _, _, _ => rfl
  | .float64, _, _, _, _, _ => rfl
  | .char, _, _, _, _, _ => rfl
  | .slot _, _, slot, _, _, hEntry =>
      failure?_of_exists (Update.exists_writeSlot hEntry slot)
  | .list element, _, items, name, _, hEntry => by
      simp only [FieldType.walk, List.findSome?_singleton]
      exact Update.failure?_writeItems hEntry element items
  | .array element _, _, items, name, _, hEntry => by
      simp only [FieldType.walk, List.findSome?_singleton]
      exact Update.failure?_writeArray hEntry element items
  | .document schema, hNames, document, name, update,
    hEntry => by
      have hFields :=
        schema.failure?_encode hNames document
          (fun other _ => Update.entry_empty other)
      rw [FieldType.encode, Update.child_eq_empty hEntry,
        FieldType.walk, ← hFields]
      exact failure?_map _ (update.setChild name)
  | .table _ key value, hNames, table, name, update,
    hEntry => by
      have hEntries :=
        value.failure?_foldlM_encode hNames
          (value.failure?_encode hNames)
          (Table.pairwise_ne table)
          (fun item _ => Update.entry_empty _)
      rw [FieldType.encode, Update.child_eq_empty hEntry,
        FieldType.walk, findSome?_flatMap, ← hEntries]
      exact failure?_map _ (update.setChild name)

/-
  Writing a document where there is nothing under its names
  fails as the first field that it walks through and that is
  rejected.
-/
theorem Schema.failure?_encode :
    (schema : Schema) → schema.HasDistinctNames →
      (document : schema.Document) → {update : Update} →
      (∀ name ∈ schema.names, update.entry name = .none) →
      failure? (schema.encode document update) =
        (schema.walk document).findSome? Visit.failure?
  | .nil, _, _, _, _ => rfl
  | .stored _ name type rest, hNames, (value, values),
    update, hEntries => by
      rcases hNames with ⟨hName, hType, hRest⟩
      have hEntry := hEntries name List.mem_cons_self
      have hFirst :=
        type.failure?_encode hType value name hEntry
      have hBehind :
          ∀ middle,
            type.encode value name update = .ok middle →
            failure? (rest.encode values middle) =
              (rest.walk values).findSome? Visit.failure? := by
        intro middle hMiddle
        rcases type.replaces_of_encode hType hEntry hMiddle
          with ⟨_, _, hReplaces⟩
        exact rest.failure?_encode hRest values
          (hReplaces.entry_of_mem hName hEntries)
      rw [Schema.encode, Schema.walk, List.findSome?_append,
        failure?_bind hBehind, hFirst]
  | .skipped _ _ rest, hNames, (_, values), _, hEntries =>
      rest.failure?_encode hNames values hEntries
  | .context _ rest, hNames, (_, values), _, hEntries =>
      rest.failure?_encode hNames values hEntries
end

------------------------------------------------------------
-- Rejected Documents
------------------------------------------------------------

/-
  A document cannot be written, with its slots filled or
  not, if and only if some field of its walk is rejected.
  The failure is the one of the first such field.
-/
theorem Schema.rejected_of_encodeDocument
    (schema : Schema)
    (hNames : schema.HasDistinctNames)
    (document : schema.Document)
    (root : Path) :
    (schema.encodeDocumentBinding document root).1 =
      schema.encodeDocument document root ∧
    ((∃ failure,
        schema.encodeDocument document root = .error failure) ↔
      ∃ visit ∈ schema.walk document,
        ∃ error, visit.Rejected error) ∧
    ∀ failure,
      schema.encodeDocument document root = .error failure ↔
        ∃ front visit back error,
          schema.walk document = front ++ visit :: back ∧
          (∀ other ∈ front, ∀ reason,
            ¬other.Rejected reason) ∧
          visit.Rejected error ∧
          failure = .codec error := by
  have hFailure :
      failure? (schema.encodeDocument document root) =
        ((schema.walk document).findSome?
          Visit.rejection?).map .codec := by
    rw [encodeDocument_eq, failure?_map, List.map_findSome?]
    exact schema.failure?_encode hNames document
      (fun name _ => Update.entry_empty name)
  have hFirst :
      ∀ error,
        (schema.walk document).findSome? Visit.rejection? =
            some error ↔
          ∃ front visit back,
            schema.walk document = front ++ visit :: back ∧
            (∀ other ∈ front, ∀ reason,
              ¬other.Rejected reason) ∧
            visit.Rejected error := by
    intro error
    rw [findSome?_eq_some_iff_first]
    simp only [ne_eq, Visit.rejection?_eq_some_iff]
  refine
    ⟨schema.fst_encodeDocumentBinding document root, ?_, ?_⟩
  · simp only [← Visit.rejection?_eq_some_iff,
      ← exists_findSome?_iff, ← failure?_eq_some_iff,
      hFailure, Option.map_eq_some_iff]
    constructor
    · rintro ⟨_, error, hError, _⟩
      exact ⟨error, hError⟩
    · rintro ⟨error, hError⟩
      exact ⟨_, error, hError, rfl⟩
  · intro failure
    rw [← failure?_eq_some_iff, hFailure,
      Option.map_eq_some_iff]
    simp only [hFirst]
    constructor
    · rintro ⟨error, ⟨front, visit, back, hWalk, hFront,
        hRejected⟩, hError⟩
      exact ⟨front, visit, back, error, hWalk, hFront,
        hRejected, hError.symm⟩
    · rintro ⟨front, visit, back, error, hWalk, hFront,
        hRejected, hError⟩
      exact ⟨error, ⟨front, visit, back, hWalk, hFront,
        hRejected⟩, hError.symm⟩

/-
  The second entry of a table has a list that is not empty:
  its key is named, while nothing is wrong about the first.
-/
theorem Schema.rejected_of_encodeDocument_second :
    let nested : Element := .list .bool
    let schema : Schema :=
      .stored "flags" "flags"
        (.table false .text (.list nested))
        (.stored "last" "last" .char .nil)
    let none : List nested.Value := []
    let one : List nested.Value := [[true]]
    let flags : Table false .text (List nested.Value) :=
      ⟨[("a", none), ("b", one)],
        List.pairwise_pair.mpr (show "a" ≠ "b" by decide)⟩
    let document : schema.Document := (flags, 'c', ())
    let root := Path.root ⟨"b", "t", "k"⟩
    schema.HasDistinctNames ∧
    (schema.walk document).map (·.name) =
      ["a", "b", "last"] ∧
    schema.encodeDocument document root =
      .error (.codec (.nestedElement "b" "bool")) := by
  intro nested schema none one flags document root
  have hNames : schema.HasDistinctNames :=
    ⟨by decide, trivial, by decide, trivial, trivial⟩
  refine ⟨hNames, rfl, ?_⟩
  refine ((schema.rejected_of_encodeDocument hNames document
    root).2.2 _).mpr ?_
  refine ⟨[⟨"a", .list nested, none⟩],
    ⟨"b", .list nested, one⟩, [⟨"last", .char, 'c'⟩],
    .nestedElement "b" "bool", rfl, ?_, ?_, rfl⟩
  · intro other hOther reason hRejected
    rw [List.mem_singleton] at hOther
    subst hOther
    rw [← Visit.rejection?_eq_some_iff] at hRejected
    cases hRejected
  · exact .listOfLists "b" (by decide) (List.cons_ne_nil _ _)

end CrdtDoc
