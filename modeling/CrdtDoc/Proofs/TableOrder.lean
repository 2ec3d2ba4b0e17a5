import CrdtDoc.Proofs.SlotFilling
import CrdtDoc.Proofs.WrittenForm
import Mathlib.Data.List.Perm.Basic

/-
  This file shows that the order in which a table lists its
  entries does not show in what is written of a document.

  A table that is not sorted lists its entries as it likes.
  They are written one after the other to one map, each to
  the name of its own key.  So what is written of a table is
  known from what is found under its keys, and does not
  depend on the order of writing.

  Key definitions include:
    * `FieldType.Reordered`
    * `Schema.Reordered`

  Main declarations:
    * `Table.foldlM_eq_ok_iff_isWritten`
    * `FieldType.Reordered.symm`
    * `FieldType.encode_of_reordered`
    * `Schema.encode_of_reordered`
    * `Schema.encodes_alike_of_reordered`
-/

namespace CrdtDoc

------------------------------------------------------------
-- Reordered Documents
------------------------------------------------------------

mutual
/-
  Two values are the same but for the order in which tables
  list their entries, at any depth.  A sorted table has only
  one order that it can list its entries in.
-/
def FieldType.Reordered :
    (type : FieldType) → type.Value → type.Value → Prop
  | .document schema, first, second =>
      schema.Reordered first second
  | .table _ key type, first, second =>
      ∃ entries : List (key.Value × type.Value),
        (Table.entries first).Perm entries ∧
        List.Forall₂
          (fun a b => a.1 = b.1 ∧ type.Reordered a.2 b.2)
          entries (Table.entries second)
  | _, first, second => first = second

/- Two documents are the same but for the order in tables. -/
def Schema.Reordered :
    (schema : Schema) → schema.Document → schema.Document →
      Prop
  | .nil, _, _ => True
  | .stored _ _ type rest, first, second =>
      type.Reordered first.1 second.1 ∧
      rest.Reordered first.2 second.2
  | .skipped _ type rest, first, second =>
      type.Reordered first.1 second.1 ∧
      rest.Reordered first.2 second.2
  | .context _ rest, first, second =>
      first.1 = second.1 ∧ rest.Reordered first.2 second.2
end

mutual
/- What is reordered can be put back in order. -/
theorem FieldType.Reordered.symm :
    {type : FieldType} → {first second : type.Value} →
      type.Reordered first second →
      type.Reordered second first
  | .document _, _, _, hReordered =>
      Schema.Reordered.symm hReordered
  | .table _ key type, _, _, ⟨_, hPerm, hEach⟩ => by
      rcases List.perm_comp_forall₂ hPerm hEach
        with ⟨entries, hEach, hPerm⟩
      refine ⟨entries, hPerm.symm, hEach.flip.imp ?_⟩
      rintro a b ⟨hKey, hValue⟩
      exact ⟨hKey.symm, hValue.symm⟩
  | .int _, _, _, hSame | .text, _, _, hSame
  | .bool, _, _, hSame | .timestamp, _, _, hSame
  | .float32, _, _, hSame | .float64, _, _, hSame
  | .char, _, _, hSame | .slot _, _, _, hSame
  | .list _, _, _, hSame | .array _ _, _, _, hSame =>
      Eq.symm hSame

/- What is reordered can be put back in order. -/
theorem Schema.Reordered.symm :
    {schema : Schema} → {first second : schema.Document} →
      schema.Reordered first second →
      schema.Reordered second first
  | .nil, _, _, _ => trivial
  | .stored _ _ _ _, _, _, ⟨hValue, hRest⟩ =>
      ⟨hValue.symm, hRest.symm⟩
  | .skipped _ _ _, _, _, ⟨hValue, hRest⟩ =>
      ⟨hValue.symm, hRest.symm⟩
  | .context _ _, _, _, ⟨hBytes, hRest⟩ =>
      ⟨hBytes.symm, hRest.symm⟩
end

/- A reordered table has the same values under its keys. -/
theorem FieldType.Reordered.exists_find?
    {sorted : Bool}
    {key : KeyType}
    {type : FieldType}
    {first second : Table sorted key type.Value}
    (hReordered :
      FieldType.Reordered (.table sorted key type) first
        second)
    {k : key.Value}
    {item : type.Value}
    (hFind : second.find? k = some item) :
    ∃ other,
      first.find? k = some other ∧
      type.Reordered other item := by
  rcases hReordered with ⟨entries, hPerm, hEach⟩
  have hMem := Table.find?_eq_some_iff.mp hFind
  rcases List.forall₂_iff_get.mp hEach with ⟨hLength, hGet⟩
  rcases List.mem_iff_get.mp hMem with ⟨⟨i, hi⟩, hItem⟩
  have hPair := hGet i (hLength ▸ hi) hi
  rw [hItem] at hPair
  rcases hPair with ⟨hKey, hValue⟩
  have hKey : (entries.get ⟨i, hLength ▸ hi⟩).1 = k := hKey
  refine ⟨_, Table.find?_eq_some_iff.mpr ?_, hValue⟩
  rw [← hKey]
  exact hPerm.mem_iff.mpr (List.get_mem entries _)

------------------------------------------------------------
-- Tables
------------------------------------------------------------

/- Well-formed updates with the same entries are the same. -/
theorem Update.WellFormed.eq_of_entry
    {left right : Update}
    (hLeft : left.WellFormed)
    (hRight : right.WellFormed)
    (hEntry : ∀ name, left.entry name = right.entry name) :
    left = right := by
  rcases Update.wellFormed_iff.mp hLeft with
    ⟨hRegisters, hCounters, hAdds, hRemoves, hFlags, hMaps, _⟩
  rcases Update.wellFormed_iff.mp hRight with
    ⟨hRegisters', hCounters', hAdds', hRemoves', hFlags',
      hMaps', _⟩
  rcases left with ⟨_, _, _, _, _, _⟩
  rcases right with ⟨_, _, _, _, _, _⟩
  rw [Update.mk.injEq]
  exact
    ⟨Entries.ext hRegisters hRegisters' fun name =>
        congrArg Entry.register (hEntry name),
      Entries.ext hCounters hCounters' fun name =>
        congrArg Entry.counter (hEntry name),
      Entries.ext hAdds hAdds' fun name =>
        congrArg Entry.adds (hEntry name),
      Entries.ext hRemoves hRemoves' fun name =>
        congrArg Entry.removes (hEntry name),
      Entries.ext hFlags hFlags' fun name =>
        congrArg Entry.flag (hEntry name),
      Entries.ext hMaps hMaps' fun name =>
        congrArg Entry.map (hEntry name)⟩

namespace Table

variable {sorted : Bool} {key : KeyType} {type : FieldType}
variable {table first second : Table sorted key type.Value}
variable {update other : Update}

/- What is written of a table is determined by it. -/
theorem IsWritten.unique
    (hNames : type.HasDistinctNames)
    (hWritten : table.IsWritten update)
    (hOther : table.IsWritten other) :
    update = other := by
  refine hWritten.wellFormed.eq_of_entry hOther.wellFormed ?_
  intro name
  by_cases hName :
      ∀ k, key.written k = name → table.find? k = none
  · rw [hWritten.others name hName, hOther.others name hName]
  · simp only [not_forall] at hName
    rcases hName with ⟨k, rfl, hFind⟩
    rcases Option.ne_none_iff_exists'.mp hFind
      with ⟨item, hItem⟩
    exact (hWritten.values k item hItem).unique hNames
      (hOther.values k item hItem)

/-
  Writing the entries of a table where there is nothing, in
  the order they are listed in, comes to what is written of
  the table.
-/
theorem foldlM_eq_ok_iff_isWritten
    (hNames : type.HasDistinctNames) :
    table.entries.foldlM
          (fun child item =>
            type.encode item.2 (key.written item.1) child)
          .empty = .ok update ↔
      table.IsWritten update := by
  constructor
  · exact isWritten_of_foldlM hNames
  · intro hWritten
    have hItems :
        ∀ item ∈ table.entries, ∀ {child : Update},
          child.entry (key.written item.1) = .none →
            ∃ after,
              type.encode item.2 (key.written item.1) child =
                .ok after := by
      intro item hItem child hEntry
      have hFind := find?_eq_some_iff.mpr hItem
      exact (hWritten.values item.1 item.2
        hFind).exists_encode_at hNames hEntry
    rcases type.exists_foldlM_encode hNames hItems
      table.pairwise_ne (fun _ _ => Update.entry_empty _)
      with ⟨made, hMade⟩
    rw [hMade, hWritten.unique hNames
      (isWritten_of_foldlM hNames hMade)]

/-
  What is written of a table is written of any reordered one,
  if this is so for the values in it.
-/
theorem IsWritten.of_reordered
    (hType :
      ∀ {value other : type.Value} {name : String}
        {before after : Update},
        type.Reordered value other →
        before.entry name = .none →
        type.encode value name before = .ok after →
        type.encode other name before = .ok after)
    (hWritten : first.IsWritten update)
    (hReordered :
      FieldType.Reordered (.table sorted key type) first
        second) :
    second.IsWritten update where
  wellFormed := hWritten.wellFormed
  values k item hFind := by
    rcases hReordered.exists_find? hFind
      with ⟨value, hValue, hSame⟩
    rcases hWritten.values k value hValue
      with ⟨before, after, hEntry, hEncode, hAfter⟩
    exact ⟨before, after, hEntry,
      hType hSame hEntry hEncode, hAfter⟩
  others name hName := by
    apply hWritten.others
    intro k hKey
    cases hFind : first.find? k with
    | none => rfl
    | some item =>
        have hBack :
            FieldType.Reordered (.table sorted key type)
              second first :=
          hReordered.symm
        rcases hBack.exists_find? hFind with ⟨other, hOther, _⟩
        rw [hName k hKey] at hOther
        cases hOther

end Table

------------------------------------------------------------
-- Documents
------------------------------------------------------------

mutual
/- A reordered value is written as the value is. -/
theorem FieldType.encode_of_reordered :
    (type : FieldType) → type.HasDistinctNames →
      {first second : type.Value} →
      type.Reordered first second →
      {name : String} → {update after : Update} →
      update.entry name = .none →
      type.encode first name update = .ok after →
      type.encode second name update = .ok after
  | .document schema, hNames, first, second, hReordered,
    name, update, after, hEntry, hEncode => by
      rw [FieldType.encode, bind_eq_ok_iff,
        Update.child_eq_empty hEntry] at hEncode ⊢
      rcases hEncode with ⟨child, hChild, hAfter⟩
      exact ⟨child,
        schema.encode_of_reordered hNames hReordered
          (fun other _ => Update.entry_empty other) hChild,
        hAfter⟩
  | .table sorted key type, hNames, first, second,
    hReordered, name, update, after, hEntry, hEncode => by
      rw [FieldType.encode, bind_eq_ok_iff,
        Update.child_eq_empty hEntry] at hEncode ⊢
      rcases hEncode with ⟨child, hChild, hAfter⟩
      have hType : type.HasDistinctNames := hNames
      have hFirst :=
        (Table.foldlM_eq_ok_iff_isWritten hType).mp hChild
      have hSecond :=
        hFirst.of_reordered
          (fun hSame => type.encode_of_reordered hType hSame)
          hReordered
      exact ⟨child,
        (Table.foldlM_eq_ok_iff_isWritten hType).mpr hSecond,
        hAfter⟩
  | .int _, _, first, second, hSame, _, _, _, _, hEncode
  | .text, _, first, second, hSame, _, _, _, _, hEncode
  | .bool, _, first, second, hSame, _, _, _, _, hEncode
  | .timestamp, _, first, second, hSame, _, _, _, _, hEncode
  | .float32, _, first, second, hSame, _, _, _, _, hEncode
  | .float64, _, first, second, hSame, _, _, _, _, hEncode
  | .char, _, first, second, hSame, _, _, _, _, hEncode
  | .slot _, _, first, second, hSame, _, _, _, _, hEncode
  | .list _, _, first, second, hSame, _, _, _, _, hEncode
  | .array _ _, _, first, second, hSame, _, _, _, _, hEncode =>
      (show first = second from hSame) ▸ hEncode

/- A reordered document is written as the document is. -/
theorem Schema.encode_of_reordered :
    (schema : Schema) → schema.HasDistinctNames →
      {first second : schema.Document} →
      schema.Reordered first second →
      {update after : Update} →
      (∀ name ∈ schema.names, update.entry name = .none) →
      schema.encode first update = .ok after →
      schema.encode second update = .ok after
  | .nil, _, _, _, _, _, _, _, hEncode => hEncode
  | .stored _ name type rest, hNames, (_, _), (_, _),
    hReordered, update, after, hEntries, hEncode => by
      rcases hNames with ⟨hName, hType, hRest⟩
      have hEntry := hEntries name List.mem_cons_self
      rw [Schema.encode, bind_eq_ok_iff] at hEncode ⊢
      rcases hEncode with ⟨middle, hMiddle, hAfter⟩
      rcases type.replaces_of_encode hType hEntry hMiddle
        with ⟨_, _, hReplaces⟩
      exact ⟨middle,
        type.encode_of_reordered hType hReordered.1 hEntry
          hMiddle,
        rest.encode_of_reordered hRest hReordered.2
          (hReplaces.entry_of_mem hName hEntries) hAfter⟩
  | .skipped _ _ rest, hNames, (_, _), (_, _), hReordered,
    _, _, hEntries, hEncode =>
      rest.encode_of_reordered hNames hReordered.2 hEntries
        hEncode
  | .context _ rest, hNames, (_, _), (_, _), hReordered, _, _,
    hEntries, hEncode =>
      rest.encode_of_reordered hNames hReordered.2 hEntries
        hEncode
end

namespace Schema

/- A reordered document has the same causal context. -/
theorem lastContext?_of_reordered :
    (schema : Schema) → {first second : schema.Document} →
      schema.Reordered first second →
      schema.lastContext? first = schema.lastContext? second
  | .nil, _, _, _ => rfl
  | .stored _ _ _ rest, (_, _), (_, _), ⟨_, hRest⟩ =>
      rest.lastContext?_of_reordered hRest
  | .skipped _ _ rest, (_, _), (_, _), ⟨_, hRest⟩ =>
      rest.lastContext?_of_reordered hRest
  | .context _ rest, (_, _), (_, _), ⟨hBytes, hRest⟩ => by
      cases hBytes
      exact congrArg (Option.or · _)
        (rest.lastContext?_of_reordered hRest)

/- What is written of a document is written reordered. -/
theorem encodeDocument_of_reordered
    {schema : Schema}
    (hNames : schema.HasDistinctNames)
    {first second : schema.Document}
    (hReordered : schema.Reordered first second)
    {root : Path}
    {encoded : Encoded}
    (hEncode :
      schema.encodeDocument first root = .ok encoded) :
    schema.encodeDocument second root = .ok encoded := by
  rcases eq_within_of_encodeDocument hEncode
    with ⟨inner, hInner, hUpdate⟩
  have hSecond :=
    schema.encode_of_reordered hNames hReordered
      (fun name _ => Update.entry_empty name) hInner
  rw [encodeDocument_eq] at hEncode ⊢
  rw [hInner] at hEncode
  rw [hSecond, ← hEncode, causalContext, causalContext,
    schema.lastContext?_of_reordered hReordered]

/-
  A document is written to an update and a context if and
  only if it is however its tables list their entries, with
  its slots filled or not.
-/
theorem encodes_alike_of_reordered
    {schema : Schema}
    (hNames : schema.HasDistinctNames)
    {first second : schema.Document}
    (hReordered : schema.Reordered first second)
    (root : Path)
    (encoded : Encoded) :
    (schema.encodeDocument first root = .ok encoded ↔
      schema.encodeDocument second root = .ok encoded) ∧
    ((schema.encodeDocumentBinding first root).1 =
        .ok encoded ↔
      (schema.encodeDocumentBinding second root).1 =
        .ok encoded) := by
  have hSame :
      schema.encodeDocument first root = .ok encoded ↔
        schema.encodeDocument second root = .ok encoded :=
    ⟨encodeDocument_of_reordered hNames hReordered,
      encodeDocument_of_reordered hNames hReordered.symm⟩
  rw [fst_encodeDocumentBinding, fst_encodeDocumentBinding]
  exact ⟨hSame, hSame⟩

/- Tables in a table, both listed in another order. -/
theorem encodes_alike_of_reordered_nested :
    let schema : Schema :=
      .stored "rows" "rows"
        (.table false .text (.table false .text (.slot .flag)))
        .nil
    let flag := Flag.bound ⟨.root ⟨"b", "t", "k"⟩, "x", []⟩
    let none : Table false .text (Slot .flag) := Table.empty
    let row := (none.insert "x" (some flag)).insert "y" .none
    let turned := (none.insert "y" .none).insert "x" (some flag)
    let rows : Table false .text (Table false .text _) :=
      Table.empty
    let first : schema.Document :=
      ((rows.insert "a" row).insert "b" none, ())
    let second : schema.Document :=
      ((rows.insert "b" none).insert "a" turned, ())
    let root := Path.root ⟨"b", "t", "k"⟩
    schema.HasDistinctNames ∧ schema.Reordered first second ∧
    ∃ encoded,
      schema.encodeDocument first root = .ok encoded ∧
      schema.encodeDocument second root = .ok encoded ∧
      (schema.encodeDocumentBinding second root).1 =
        .ok encoded := by
  intro schema flag none row turned rows first second root
  have hNames : schema.HasDistinctNames :=
    ⟨List.not_mem_nil, trivial, trivial⟩
  have hRow :
      FieldType.Reordered (.table false .text (.slot .flag))
        row turned :=
    ⟨_, List.Perm.swap _ _ _,
      .cons ⟨rfl, rfl⟩ (.cons ⟨rfl, rfl⟩ .nil)⟩
  have hReordered : schema.Reordered first second := by
    refine ⟨⟨_, List.Perm.swap _ _ _, ?_⟩, trivial⟩
    exact
      .cons ⟨rfl, _, .refl _, .nil⟩ (.cons ⟨rfl, hRow⟩ .nil)
  have hSame :=
    encodes_alike_of_reordered hNames hReordered root
  exact ⟨hNames, hReordered, _, rfl,
    (hSame _).1.mp rfl, (hSame _).2.mp rfl⟩

end Schema

end CrdtDoc
