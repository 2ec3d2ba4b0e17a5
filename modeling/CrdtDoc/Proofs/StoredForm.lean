import CrdtDoc.Proofs.EntryWriting

/-
  This file defines the stored form of values and documents:
  the entry that stands for a value under a name, and the
  updates in which every field of a document has its entry.

  Writing a value where there is nothing makes its stored
  form, and touches no entry of another name.

  Key definitions include:
    * `Schema.names`
    * `Schema.HasDistinctNames`
    * `FieldType.StoredAs`
    * `Schema.StoredIn`

  Writing is described by:
    * `FieldType.replaces_of_encode`
    * `Schema.storedIn_of_encode`
-/

namespace CrdtDoc

------------------------------------------------------------
-- Distinct Names
------------------------------------------------------------

/- The names that the fields of a document are stored under. -/
def Schema.names : Schema → List String
  | .nil => []
  | .stored _ name _ rest => name :: rest.names
  | .skipped _ _ rest => rest.names
  | .context _ rest => rest.names

mutual
/- Within a type, no document stores two fields together. -/
def FieldType.HasDistinctNames : FieldType → Prop
  | .document schema => schema.HasDistinctNames
  | .table _ _ value => value.HasDistinctNames
  | _ => True

/- No document stores two fields under one name. -/
def Schema.HasDistinctNames : Schema → Prop
  | .nil => True
  | .stored _ name type rest =>
      name ∉ rest.names ∧ type.HasDistinctNames ∧
        rest.HasDistinctNames
  | .skipped _ _ rest => rest.HasDistinctNames
  | .context _ rest => rest.HasDistinctNames
end

------------------------------------------------------------
-- Stored Forms
------------------------------------------------------------

namespace Update.Entry

/- The entry with a register and nothing else. -/
def ofRegister
    (value : Bytes) : Entry :=
  { none with register := some value }

/- The entry with a map and nothing else. -/
def ofMap
    (child : Update) : Entry :=
  { none with map := some child }

end Update.Entry

/- The entry that a list is stored as. -/
def Element.ListStoredAs
    (element : Element)
    (items : List element.Value)
    (name : String)
    (entry : Update.Entry) : Prop :=
  match element.shape with
  | .byte => entry = .ofRegister (element.bytes items)
  | .scalar | .nested =>
      ∃ members,
        items.mapM (element.toMember name) = .ok members ∧
        entry =
          { Update.Entry.none with
            adds := Update.Entry.added members }
  | .unsupported => False

mutual
/- The entry that a value is stored as under a name. -/
def FieldType.StoredAs :
    (type : FieldType) → type.Value → String →
      Update.Entry → Prop
  | .int _, value, _, entry =>
      entry = .ofRegister (Text.encode (Integer.text value))
  | .text, value, _, entry =>
      entry = .ofRegister (Text.encode value)
  | .bool, value, _, entry =>
      entry = { Update.Entry.none with flag := some value }
  | .timestamp, value, _, entry =>
      entry = .ofRegister (Timestamp.toBytes value)
  | .float32, _, _, _ => False
  | .float64, _, _, _ => False
  | .char, _, _, _ => False
  | .slot _, slot, _, entry => entry = Slot.written slot
  | .list element, items, name, entry =>
      element.ListStoredAs items name entry
  | .array element length, items, _, entry =>
      (length = 0 ∨ element.shape = .byte) ∧
      entry = .ofRegister (element.bytes items.val)
  | .document schema, document, _, entry =>
      ∃ child,
        schema.StoredIn document child ∧
        entry = .ofMap child
  | .table _ key value, table, _, entry =>
      ∃ child,
        (∀ item ∈ Table.entries table,
          value.StoredAs item.2 (key.written item.1)
            (child.entry (key.written item.1))) ∧
        (∀ other,
          (∀ item ∈ Table.entries table,
            key.written item.1 ≠ other) →
          child.entry other = .none) ∧
        entry = .ofMap child

/- An update in which every field has its stored form. -/
def Schema.StoredIn :
    (schema : Schema) → schema.Document → Update → Prop
  | .nil, _, _ => True
  | .stored _ name type rest, (value, values), update =>
      type.StoredAs value name (update.entry name) ∧
      rest.StoredIn values update
  | .skipped _ _ rest, (_, values), update =>
      rest.StoredIn values update
  | .context _ rest, (_, values), update =>
      rest.StoredIn values update
end

/- A list is stored as a register of bytes, or as a set. -/
theorem Element.ListStoredAs.register_or_set
    {element : Element}
    {items : List element.Value}
    {name : String}
    {entry : Update.Entry}
    (hStored : element.ListStoredAs items name entry) :
    (element.shape = .byte ∧
      entry = .ofRegister (element.bytes items)) ∨
    (element.shape = .scalar ∨ element.shape = .nested) ∧
    ∃ members,
      items.mapM (element.toMember name) = .ok members ∧
      entry =
        { Update.Entry.none with
          adds := Update.Entry.added members } := by
  unfold ListStoredAs at hStored
  cases hShape : element.shape with
  | byte =>
      rw [hShape] at hStored
      exact Or.inl ⟨rfl, hStored⟩
  | scalar =>
      rw [hShape] at hStored
      exact Or.inr ⟨Or.inl rfl, hStored⟩
  | nested =>
      rw [hShape] at hStored
      exact Or.inr ⟨Or.inr rfl, hStored⟩
  | unsupported =>
      rw [hShape] at hStored
      exact hStored.elim

/- A list of bytes is stored as a register. -/
theorem Element.ListStoredAs.register
    {element : Element}
    (hShape : element.shape = .byte)
    {items : List element.Value}
    {name : String}
    {entry : Update.Entry}
    (hStored : element.ListStoredAs items name entry) :
    entry = .ofRegister (element.bytes items) := by
  unfold ListStoredAs at hStored
  rwa [hShape] at hStored

/- Any other list that is stored is stored as a set. -/
theorem Element.ListStoredAs.exists_members
    {element : Element}
    (hShape : element.shape ≠ .byte)
    {items : List element.Value}
    {name : String}
    {entry : Update.Entry}
    (hStored : element.ListStoredAs items name entry) :
    ∃ members,
      items.mapM (element.toMember name) = .ok members ∧
      entry =
        { Update.Entry.none with
          adds := Update.Entry.added members } := by
  rcases hStored.register_or_set
    with ⟨hByte, _⟩ | ⟨_, hMembers⟩
  · exact absurd hByte hShape
  · exact hMembers

/- What a list is stored as is determined by it. -/
theorem Element.ListStoredAs.unique
    {element : Element}
    {items : List element.Value}
    {name : String}
    {entry other : Update.Entry}
    (hEntry : element.ListStoredAs items name entry)
    (hOther : element.ListStoredAs items name other) :
    entry = other := by
  by_cases hShape : element.shape = .byte
  · exact (hEntry.register hShape).trans
      (hOther.register hShape).symm
  · rcases hEntry.exists_members hShape
      with ⟨members, hMembers, hEntry⟩
    rcases hOther.exists_members hShape
      with ⟨same, hSame, hOther⟩
    cases hMembers.symm.trans hSame
    exact hEntry.trans hOther.symm

------------------------------------------------------------
-- Writing
------------------------------------------------------------

section Writing

variable {update after : Update} {name : String}

/- A flag is put where there is nothing. -/
theorem Update.replaces_setFlag
    (hEntry : update.entry name = .none)
    (state : Bool) :
    Replaces name { Entry.none with flag := some state }
      update (update.setFlag name state) := by
  intro other
  rw [entry_setFlag]
  split
  · rename_i hName
    rw [← hName, hEntry]
  · rfl

/- A child is put where there is nothing. -/
theorem Update.replaces_setChild
    (hEntry : update.entry name = .none)
    (child : Update) :
    Replaces name (.ofMap child) update
      (update.setChild name child) := by
  intro other
  rw [entry_setChild]
  split
  · rename_i hName
    rw [← hName, hEntry]
    rfl
  · rfl

/- Where there is nothing, a child starts from nothing. -/
theorem Update.child_eq_empty
    (hEntry : update.entry name = .none) :
    update.child name = .empty := by
  have hMap : update.map? name = none :=
    congrArg Entry.map hEntry
  rw [child, hMap]
  rfl

/- A register written has the stored form of its bytes. -/
theorem Update.replaces_of_writeRegister
    (hEntry : update.entry name = .none)
    {value : Bytes}
    (hWrite : update.writeRegister name value = .ok after) :
    Replaces name (.ofRegister value) update after := by
  rcases exists_writeRegister hEntry value
    with ⟨made, hMade, hReplaces⟩
  rw [hMade] at hWrite
  cases hWrite
  exact hReplaces

/- A list written has its stored form. -/
theorem Update.replaces_of_writeItems
    (hEntry : update.entry name = .none)
    {element : Element}
    {items : List element.Value}
    (hWrite :
      update.writeItems name element items = .ok after) :
    ∃ entry,
      element.ListStoredAs items name entry ∧
      Replaces name entry update after := by
  have hMembers :
      items.foldlM
          (fun update item =>
            update.writeElement name element item)
          update = .ok after →
        ∃ entry,
          (∃ members,
            items.mapM (element.toMember name) =
              .ok members ∧
            entry =
              { Entry.none with
                adds := Entry.added members }) ∧
          Replaces name entry update after := by
    intro hFold
    rcases foldlM_writeElement_eq_ok_iff.mp hFold
      with ⟨members, hItems, hAfter⟩
    rcases exists_writeMembers hEntry members
      with ⟨made, hMade, hReplaces⟩
    rw [hMade] at hAfter
    cases hAfter
    exact ⟨_, ⟨members, hItems, rfl⟩, hReplaces⟩
  unfold writeItems at hWrite
  unfold Element.ListStoredAs
  cases hShape : element.shape with
  | byte =>
      rw [hShape] at hWrite
      exact ⟨_, rfl, replaces_of_writeRegister hEntry hWrite⟩
  | scalar =>
      rw [hShape] at hWrite
      exact hMembers hWrite
  | nested =>
      rw [hShape] at hWrite
      exact hMembers hWrite
  | unsupported =>
      rw [hShape] at hWrite
      cases hWrite

/- A list that has a stored form can be written. -/
theorem Update.exists_writeItems
    (hEntry : update.entry name = .none)
    {element : Element}
    {items : List element.Value}
    {entry : Update.Entry}
    (hStored : element.ListStoredAs items name entry) :
    ∃ after,
      update.writeItems name element items = .ok after := by
  rcases hStored.register_or_set
    with ⟨hShape, _⟩ | ⟨hShape, members, hItems, _⟩
  · rcases exists_writeRegister hEntry (element.bytes items)
      with ⟨after, hAfter, _⟩
    unfold writeItems
    rw [hShape]
    exact ⟨after, hAfter⟩
  · rcases exists_writeMembers hEntry members
      with ⟨after, hAfter, _⟩
    have hFold :=
      foldlM_writeElement_eq_ok_iff.mpr
        ⟨members, hItems, hAfter⟩
    unfold writeItems
    rcases hShape with hShape | hShape
    · rw [hShape]
      exact ⟨after, hFold⟩
    · rw [hShape]
      exact ⟨after, hFold⟩

/- An array that has a stored form can be written. -/
theorem Update.exists_writeArray
    (hEntry : update.entry name = .none)
    {element : Element}
    {length : Nat}
    (hStored : length = 0 ∨ element.shape = .byte)
    (items : { list : List element.Value //
      list.length = length }) :
    ∃ after,
      update.writeArray name element items.val =
        .ok after := by
  have hBytes :
      ¬(items.val.length > 0 ∧ element.shape ≠ .byte) := by
    rw [items.property]
    rintro ⟨hPos, hShape⟩
    rcases hStored with hZero | hByte
    · rw [hZero] at hPos
      exact Nat.lt_irrefl 0 hPos
    · exact hShape hByte
  rcases exists_writeRegister hEntry
    (element.bytes items.val) with ⟨after, hAfter, _⟩
  exact ⟨after, (if_neg hBytes).trans hAfter⟩

/- Behind the first entry of a table, free names stay so. -/
theorem Update.Replaces.entry_of_pairwise
    {key : KeyType}
    {α : Type}
    {first : key.Value × α}
    {rest : List (key.Value × α)}
    {entry : Update.Entry}
    {before after : Update}
    (hReplaces :
      Update.Replaces (key.written first.1) entry before
        after)
    (hKeys :
      (first :: rest).Pairwise fun a b => a.1 ≠ b.1)
    (hFree :
      ∀ item ∈ first :: rest,
        before.entry (key.written item.1) = .none) :
    ∀ item ∈ rest,
      after.entry (key.written item.1) = .none := by
  intro item hItem
  have hNe : key.written item.1 ≠ key.written first.1 := by
    intro hName
    exact (List.pairwise_cons.mp hKeys).1 item hItem
      (key.written_injective hName).symm
  rw [hReplaces.entry_of_ne hNe]
  exact hFree item (List.mem_cons_of_mem _ hItem)

/-
  Entries of a table written where there is nothing have
  their forms, if each entry for itself gets its own.
-/
theorem FieldType.forms_of_foldlM
    {type : FieldType}
    {key : KeyType}
    {form : type.Value → String → Update.Entry → Prop}
    (hType :
      ∀ {value : type.Value} {name : String}
        {update after : Update},
        update.entry name = .none →
          type.encode value name update = .ok after →
            ∃ entry,
              form value name entry ∧
              Update.Replaces name entry update after)
    {items : List (key.Value × type.Value)}
    (hKeys : items.Pairwise fun a b => a.1 ≠ b.1)
    {update after : Update}
    (hEntries :
      ∀ item ∈ items,
        update.entry (key.written item.1) = .none)
    (hFold :
      items.foldlM
          (fun child item =>
            type.encode item.2 (key.written item.1) child)
          update = .ok after) :
    (∀ item ∈ items,
      form item.2 (key.written item.1)
        (after.entry (key.written item.1))) ∧
    ∀ other,
      (∀ item ∈ items, key.written item.1 ≠ other) →
      after.entry other = update.entry other := by
  induction items generalizing update with
  | nil =>
      cases hFold
      refine ⟨?_, fun _ _ => rfl⟩
      intro item hItem
      cases hItem
  | cons first rest ih =>
      rcases List.pairwise_cons.mp hKeys with ⟨hFirst, hRest⟩
      rw [List.foldlM_cons, bind_eq_ok_iff] at hFold
      rcases hFold with ⟨middle, hMiddle, hAfter⟩
      rcases hType (hEntries first List.mem_cons_self) hMiddle
        with ⟨entry, hEntry, hReplaces⟩
      have hOthers :
          ∀ item ∈ rest,
            key.written first.1 ≠ key.written item.1 := by
        intro item hItem hName
        exact hFirst item hItem (key.written_injective hName)
      have hMiddleEntries :=
        hReplaces.entry_of_pairwise hKeys hEntries
      rcases ih hRest hMiddleEntries hAfter
        with ⟨hStored, hSame⟩
      constructor
      · intro item hItem
        rcases List.mem_cons.mp hItem with hEq | hItem
        · subst hEq
          rw [hSame _ fun other hOther =>
              (hOthers other hOther).symm,
            hReplaces.entry_eq]
          exact hEntry
        · exact hStored item hItem
      · intro other hOther
        have hName := hOther first List.mem_cons_self
        rw [hSame other fun item hItem =>
            hOther item (List.mem_cons_of_mem _ hItem),
          hReplaces.entry_of_ne hName.symm]

end Writing

mutual
/-
  A value written where there is nothing has its stored
  form, and no other entry is touched.
-/
theorem FieldType.replaces_of_encode :
    (type : FieldType) → type.HasDistinctNames →
      {value : type.Value} → {name : String} →
      {update after : Update} →
      update.entry name = .none →
      type.encode value name update = .ok after →
      ∃ entry,
        type.StoredAs value name entry ∧
        Update.Replaces name entry update after
  | .int _, _, _, _, _, _, hEntry, hEncode =>
      ⟨_, rfl,
        Update.replaces_of_writeRegister hEntry hEncode⟩
  | .text, _, _, _, _, _, hEntry, hEncode =>
      ⟨_, rfl,
        Update.replaces_of_writeRegister hEntry hEncode⟩
  | .bool, _, value, _, _, _, hEntry, hEncode => by
      cases hEncode
      exact ⟨_, rfl, Update.replaces_setFlag hEntry value⟩
  | .timestamp, _, _, _, _, _, hEntry, hEncode =>
      ⟨_, rfl,
        Update.replaces_of_writeRegister hEntry hEncode⟩
  | .float32, _, _, _, _, _, _, hEncode => by
      cases hEncode
  | .float64, _, _, _, _, _, _, hEncode => by
      cases hEncode
  | .char, _, _, _, _, _, _, hEncode => by
      cases hEncode
  | .slot _, _, slot, name, update, _, hEntry, hEncode => by
      rcases Update.exists_writeSlot hEntry slot
        with ⟨made, hMade, hReplaces⟩
      have hSame := hMade.symm.trans hEncode
      cases hSame
      exact ⟨_, rfl, hReplaces⟩
  | .list _, _, _, _, _, _, hEntry, hEncode =>
      Update.replaces_of_writeItems hEntry hEncode
  | .array element length, _, items, name, update, _,
    hEntry, hEncode => by
      change update.writeArray name element items.val = _
        at hEncode
      unfold Update.writeArray at hEncode
      split at hEncode
      · cases hEncode
      · rename_i hBytes
        have hStored :
            length = 0 ∨ element.shape = .byte := by
          rw [items.property] at hBytes
          rcases Nat.eq_zero_or_pos length with hZero | hPos
          · exact Or.inl hZero
          · exact Or.inr (Decidable.byContradiction
              fun hShape => hBytes ⟨hPos, hShape⟩)
        exact ⟨_, ⟨hStored, rfl⟩,
          Update.replaces_of_writeRegister hEntry hEncode⟩
  | .document schema, hNames, document, name, update, _,
    hEntry, hEncode => by
      rw [FieldType.encode, bind_eq_ok_iff] at hEncode
      rcases hEncode with ⟨child, hChild, hAfter⟩
      cases hAfter
      rw [Update.child_eq_empty hEntry] at hChild
      have hStored :=
        schema.storedIn_of_encode hNames (fun _ _ => rfl)
          hChild
      exact ⟨_, ⟨child, hStored.1, rfl⟩,
        Update.replaces_setChild hEntry child⟩
  | .table _ key value, hNames, table, name, update, _,
    hEntry, hEncode => by
      rw [FieldType.encode, bind_eq_ok_iff] at hEncode
      rcases hEncode with ⟨child, hChild, hAfter⟩
      cases hAfter
      rw [Update.child_eq_empty hEntry] at hChild
      have hStored :=
        FieldType.forms_of_foldlM
          (value.replaces_of_encode hNames)
          (Table.pairwise_ne table) (fun _ _ => rfl) hChild
      exact ⟨_, ⟨child, hStored.1, hStored.2, rfl⟩,
        Update.replaces_setChild hEntry child⟩

/-
  A document written where there is nothing under its names
  has its stored form, and no other entry is touched.
-/
theorem Schema.storedIn_of_encode :
    (schema : Schema) → schema.HasDistinctNames →
      {document : schema.Document} →
      {update after : Update} →
      (∀ name ∈ schema.names, update.entry name = .none) →
      schema.encode document update = .ok after →
      schema.StoredIn document after ∧
      ∀ other ∉ schema.names,
        after.entry other = update.entry other
  | .nil, _, _, _, _, _, hEncode => by
      cases hEncode
      exact ⟨trivial, fun _ _ => rfl⟩
  | .stored _ name type rest, hNames, (value, values),
    update, after, hEntries, hEncode => by
      rcases hNames with ⟨hName, hType, hRest⟩
      rw [Schema.encode, bind_eq_ok_iff] at hEncode
      rcases hEncode with ⟨middle, hMiddle, hAfter⟩
      rcases type.replaces_of_encode hType
        (hEntries name List.mem_cons_self) hMiddle
        with ⟨entry, hEntry, hReplaces⟩
      have hMiddleEntries :=
        hReplaces.entry_of_mem hName hEntries
      rcases rest.storedIn_of_encode hRest hMiddleEntries
        hAfter with ⟨hStored, hSame⟩
      constructor
      · refine ⟨?_, hStored⟩
        rw [hSame name hName, hReplaces.entry_eq]
        exact hEntry
      · intro other hOther
        rw [hSame other (List.not_mem_of_not_mem_cons hOther),
          hReplaces.entry_of_ne
            (List.ne_of_not_mem_cons hOther)]
  | .skipped _ _ rest, hNames, (_, values), _, _, hEntries,
    hEncode =>
      rest.storedIn_of_encode hNames hEntries hEncode
  | .context _ rest, hNames, (_, values), _, _, hEntries,
    hEncode =>
      rest.storedIn_of_encode hNames hEntries hEncode
end

end CrdtDoc
