import CrdtDoc.Proofs.StoredForm

/-
  This file defines which types have a stored form for every
  value: all but floating-point numbers, single characters,
  and lists and arrays of what is no byte, integer or text.

  Writing a value of such a type never fails where there is
  nothing, whatever the value is.

  Key definitions include:
    * `FieldType.IsStorable`
    * `Schema.IsStorable`

  Writing succeeds by:
    * `FieldType.exists_encode`
    * `Schema.exists_encode`
-/

namespace CrdtDoc

------------------------------------------------------------
-- Storable Types
------------------------------------------------------------

mutual
/- Does every value of a type have a stored form? -/
def FieldType.IsStorable : FieldType → Prop
  | .int _ => True
  | .text => True
  | .bool => True
  | .timestamp => True
  | .float32 => False
  | .float64 => False
  | .char => False
  | .slot _ => True
  | .list element => element.IsStorable
  | .array element length =>
      length = 0 ∨ element.shape = .byte
  | .document schema => schema.IsStorable
  | .table _ _ value => value.IsStorable

/- Is every stored field of a document of such a type? -/
def Schema.IsStorable : Schema → Prop
  | .nil => True
  | .stored _ _ type rest =>
      type.IsStorable ∧ rest.IsStorable
  | .skipped _ _ rest => rest.IsStorable
  | .context _ rest => rest.IsStorable
end

/- Storable elements have a shape that is stored. -/
theorem Element.IsStorable.shape_ne
    {element : Element}
    (hStorable : element.IsStorable) :
    element.shape ≠ .unsupported := by
  cases element with
  | int type => cases type <;> intro hShape <;> cases hShape
  | text => intro hShape; cases hShape
  | list element => intro hShape; cases hShape
  | array element length => intro hShape; cases hShape
  | _ => exact hStorable.elim

------------------------------------------------------------
-- Writing
------------------------------------------------------------

variable {update : Update} {name : String}

/- A list of storable elements has a stored form. -/
theorem Element.IsStorable.exists_listStoredAs
    {element : Element}
    (hStorable : element.IsStorable)
    (items : List element.Value)
    (name : String) :
    ∃ entry, element.ListStoredAs items name entry := by
  have hMembers :
      ∃ members,
        items.mapM (element.toMember name) = .ok members := by
    simp only [mapM_eq_ok_iff]
    induction items with
    | nil => exact ⟨[], .nil⟩
    | cons item rest ih =>
        rcases ih with ⟨members, hRest⟩
        rcases Element.exists_toMember hStorable name item
          with ⟨member, hMember⟩
        exact ⟨member :: members, .cons hMember hRest⟩
  rcases hMembers with ⟨members, hItems⟩
  have hShape := hStorable.shape_ne
  unfold ListStoredAs
  split
  · exact ⟨_, rfl⟩
  · exact ⟨_, members, hItems, rfl⟩
  · exact ⟨_, members, hItems, rfl⟩
  · rename_i hNone
    exact absurd hNone hShape

/- The entries of a table can be written, if each can. -/
theorem FieldType.exists_foldlM_encode
    (type : FieldType)
    (hNames : type.HasDistinctNames)
    {key : KeyType}
    {items : List (key.Value × type.Value)}
    (hItems :
      ∀ item ∈ items, ∀ {update : Update},
        update.entry (key.written item.1) = .none →
          ∃ after,
            type.encode item.2 (key.written item.1) update =
              .ok after)
    (hKeys : items.Pairwise fun a b => a.1 ≠ b.1)
    {update : Update}
    (hEntries :
      ∀ item ∈ items,
        update.entry (key.written item.1) = .none) :
    ∃ after,
      items.foldlM
          (fun child item =>
            type.encode item.2 (key.written item.1) child)
          update = .ok after := by
  induction items generalizing update with
  | nil => exact ⟨update, rfl⟩
  | cons first rest ih =>
      have hRest := (List.pairwise_cons.mp hKeys).2
      have hEntry := hEntries first List.mem_cons_self
      rcases hItems first List.mem_cons_self hEntry
        with ⟨middle, hMiddle⟩
      rcases type.replaces_of_encode hNames hEntry hMiddle
        with ⟨_, _, hReplaces⟩
      have hMiddleEntries :=
        hReplaces.entry_of_pairwise hKeys hEntries
      rcases ih
        (fun item hItem =>
          hItems item (List.mem_cons_of_mem _ hItem))
        hRest hMiddleEntries with ⟨after, hAfter⟩
      refine ⟨after, ?_⟩
      rw [List.foldlM_cons, bind_eq_ok_iff]
      exact ⟨middle, hMiddle, hAfter⟩

mutual
/- A value of a storable type can be written. -/
theorem FieldType.exists_encode :
    (type : FieldType) → type.IsStorable →
      type.HasDistinctNames → (value : type.Value) →
      {name : String} → {update : Update} →
      update.entry name = .none →
      ∃ after, type.encode value name update = .ok after
  | .int _, _, _, value, _, _, hEntry => by
      rcases Update.exists_writeRegister hEntry
        (Text.encode (Integer.text value))
        with ⟨after, hAfter, _⟩
      exact ⟨after, hAfter⟩
  | .text, _, _, value, _, _, hEntry => by
      rcases Update.exists_writeRegister hEntry
        (Text.encode value) with ⟨after, hAfter, _⟩
      exact ⟨after, hAfter⟩
  | .bool, _, _, _, _, _, _ => ⟨_, rfl⟩
  | .timestamp, _, _, value, _, _, hEntry => by
      rcases Update.exists_writeRegister hEntry
        (Timestamp.toBytes value) with ⟨after, hAfter, _⟩
      exact ⟨after, hAfter⟩
  | .slot _, _, _, slot, _, _, hEntry => by
      rcases Update.exists_writeSlot hEntry slot
        with ⟨after, hAfter, _⟩
      exact ⟨after, hAfter⟩
  | .list element, hStorable, _, items, name, _,
    hEntry => by
      rcases Element.IsStorable.exists_listStoredAs hStorable
        items name with ⟨_, hStored⟩
      exact Update.exists_writeItems hEntry hStored
  | .array _ _, hStorable, _, items, _, _, hEntry =>
      Update.exists_writeArray hEntry hStorable items
  | .document schema, hStorable, hNames, document, name,
    update, hEntry => by
      rcases schema.exists_encode hStorable hNames document
        (fun other _ => Update.entry_empty other)
        with ⟨child, hChild⟩
      refine ⟨update.setChild name child, ?_⟩
      rw [FieldType.encode, bind_eq_ok_iff,
        Update.child_eq_empty hEntry]
      exact ⟨child, hChild, rfl⟩
  | .table _ key value, hStorable, hNames, table, name,
    update, hEntry => by
      rcases value.exists_foldlM_encode hNames
        (fun item _ =>
          value.exists_encode hStorable hNames item.2)
        (Table.pairwise_ne table)
        (fun item _ => Update.entry_empty _)
        with ⟨child, hChild⟩
      refine ⟨update.setChild name child, ?_⟩
      rw [FieldType.encode, bind_eq_ok_iff,
        Update.child_eq_empty hEntry]
      exact ⟨child, hChild, rfl⟩

/- A document of a storable schema can be written. -/
theorem Schema.exists_encode :
    (schema : Schema) → schema.IsStorable →
      schema.HasDistinctNames →
      (document : schema.Document) → {update : Update} →
      (∀ name ∈ schema.names, update.entry name = .none) →
      ∃ after, schema.encode document update = .ok after
  | .nil, _, _, _, update, _ => ⟨update, rfl⟩
  | .stored _ name type rest, hStorable, hNames,
    (value, values), update, hEntries => by
      rcases hNames with ⟨hName, hType, hRest⟩
      have hEntry := hEntries name List.mem_cons_self
      rcases type.exists_encode hStorable.1 hType value hEntry
        with ⟨middle, hMiddle⟩
      rcases type.replaces_of_encode hType hEntry hMiddle
        with ⟨_, _, hReplaces⟩
      have hMiddleEntries :=
        hReplaces.entry_of_mem hName hEntries
      rcases rest.exists_encode hStorable.2 hRest values
        hMiddleEntries with ⟨after, hAfter⟩
      refine ⟨after, ?_⟩
      rw [Schema.encode, bind_eq_ok_iff]
      exact ⟨middle, hMiddle, hAfter⟩
  | .skipped _ _ rest, hStorable, hNames, (_, values), _,
    hEntries =>
      rest.exists_encode hStorable hNames values hEntries
  | .context _ rest, hStorable, hNames, (_, values), _,
    hEntries =>
      rest.exists_encode hStorable hNames values hEntries
end

end CrdtDoc
