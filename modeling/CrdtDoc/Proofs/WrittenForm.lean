import CrdtDoc.Proofs.FreshUpdate

/-
  This file describes what is written of values and
  documents to the last entry, where stored forms leave open
  what stands under other names.

  What is written of a value where there is nothing is
  determined by the value.  So it is enough to compare what
  is written of documents and tables field by field and key
  by key to know what one makes of the other.

  Key definitions include:
    * `FieldType.WrittenAs`
    * `Schema.WrittenIn`
    * `Schema.IsWritten`
    * `Table.IsWritten`

  Main declarations:
    * `FieldType.WrittenAs.unique`
    * `FieldType.WrittenAs.exists_document`
    * `FieldType.WrittenAs.exists_table`
    * `Schema.exists_isWritten`
    * `Schema.IsWritten.apply_fresh`
    * `Table.IsWritten.apply_fresh`
-/

namespace CrdtDoc

------------------------------------------------------------
-- Definitions
------------------------------------------------------------

/- The entry that is written of a value under a name. -/
def FieldType.WrittenAs
    (type : FieldType)
    (value : type.Value)
    (name : String)
    (entry : Update.Entry) : Prop :=
  ∃ update after,
    update.entry name = .none ∧
    type.encode value name update = .ok after ∧
    after.entry name = entry

/- Every stored field has the entry that is written of it. -/
def Schema.WrittenIn :
    (schema : Schema) → schema.Document → Update → Prop
  | .nil, _, _ => True
  | .stored _ name type rest, (value, values), update =>
      type.WrittenAs value name (update.entry name) ∧
      rest.WrittenIn values update
  | .skipped _ _ rest, (_, values), update =>
      rest.WrittenIn values update
  | .context _ rest, (_, values), update =>
      rest.WrittenIn values update

/- An update that consists of what is written of a document. -/
structure Schema.IsWritten
    (schema : Schema)
    (document : schema.Document)
    (update : Update) : Prop where
  wellFormed : update.WellFormed
  fields : schema.WrittenIn document update
  others :
    ∀ name ∉ schema.names, update.entry name = .none

/- An update that consists of what is written of a table. -/
structure Table.IsWritten
    {sorted : Bool}
    {key : KeyType}
    {type : FieldType}
    (table : Table sorted key type.Value)
    (update : Update) : Prop where
  wellFormed : update.WellFormed
  values :
    ∀ k item,
      table.find? k = some item →
      type.WrittenAs item (key.written k)
        (update.entry (key.written k))
  others :
    ∀ name,
      (∀ k, key.written k = name → table.find? k = none) →
      update.entry name = .none

------------------------------------------------------------
-- Writing
------------------------------------------------------------

namespace FieldType

variable {type : FieldType} {value : type.Value}
variable {name : String} {update after : Update}
variable {entry : Update.Entry}

/- What is written of a value is its stored form. -/
theorem WrittenAs.storedAs
    (hNames : type.HasDistinctNames)
    (hWritten : type.WrittenAs value name entry) :
    type.StoredAs value name entry := by
  rcases hWritten with ⟨update, after, hEntry, hEncode, hAfter⟩
  rcases type.replaces_of_encode hNames hEntry hEncode
    with ⟨stored, hStored, hReplaces⟩
  rw [hReplaces.entry_eq] at hAfter
  exact hAfter ▸ hStored

/- Writing a value puts what is written of it to its name. -/
theorem exists_writtenAs
    (hNames : type.HasDistinctNames)
    (hEntry : update.entry name = .none)
    (hEncode : type.encode value name update = .ok after) :
    ∃ entry,
      type.WrittenAs value name entry ∧
      Update.Replaces name entry update after := by
  rcases type.replaces_of_encode hNames hEntry hEncode
    with ⟨entry, _, hReplaces⟩
  exact ⟨entry,
    ⟨update, after, hEntry, hEncode, hReplaces.entry_eq⟩,
    hReplaces⟩

end FieldType

/-
  Writing a document where there is nothing under its names
  puts what is written of its fields there.
-/
theorem Schema.writtenIn_of_encode :
    (schema : Schema) → {document : schema.Document} →
      schema.HasDistinctNames → {update after : Update} →
      (∀ name ∈ schema.names, update.entry name = .none) →
      schema.encode document update = .ok after →
      schema.WrittenIn document after
  | .nil, _, _, _, _, _, _ => trivial
  | .stored _ name type rest, (value, values), hNames,
    update, after, hEntries, hEncode => by
      rcases hNames with ⟨hName, hType, hRest⟩
      rw [Schema.encode, bind_eq_ok_iff] at hEncode
      rcases hEncode with ⟨middle, hMiddle, hAfter⟩
      rcases FieldType.exists_writtenAs hType
        (hEntries name List.mem_cons_self) hMiddle
        with ⟨entry, hWritten, hReplaces⟩
      have hMiddleEntries :=
        hReplaces.entry_of_mem hName hEntries
      have hSame :=
        (rest.storedIn_of_encode hRest hMiddleEntries
          hAfter).2
      refine ⟨?_,
        rest.writtenIn_of_encode hRest hMiddleEntries hAfter⟩
      rw [hSame name hName, hReplaces.entry_eq]
      exact hWritten
  | .skipped _ _ rest, (_, values), hNames, _, _, hEntries,
    hEncode =>
      rest.writtenIn_of_encode hNames hEntries hEncode
  | .context _ rest, (_, values), hNames, _, _, hEntries,
    hEncode =>
      rest.writtenIn_of_encode hNames hEntries hEncode

/- Fields with what is written of them have stored forms. -/
theorem Schema.storedIn_of_writtenIn :
    (schema : Schema) → schema.HasDistinctNames →
      {document : schema.Document} → {update : Update} →
      schema.WrittenIn document update →
      schema.StoredIn document update
  | .nil, _, _, _, _ => trivial
  | .stored _ _ _ rest, hNames, (_, _), _, hWritten =>
      ⟨hWritten.1.storedAs hNames.2.1,
        rest.storedIn_of_writtenIn hNames.2.2 hWritten.2⟩
  | .skipped _ _ rest, hNames, (_, _), _, hWritten =>
      rest.storedIn_of_writtenIn hNames hWritten
  | .context _ rest, hNames, (_, _), _, hWritten =>
      rest.storedIn_of_writtenIn hNames hWritten

/- Nothing but a document is written of it into nothing. -/
theorem Schema.isWritten_of_encode
    {schema : Schema}
    (hNames : schema.HasDistinctNames)
    {document : schema.Document}
    {update : Update}
    (hEncode : schema.encode document .empty = .ok update) :
    schema.IsWritten document update where
  wellFormed :=
    schema.wellFormed_of_encode Update.wellFormed_empty
      hEncode
  fields :=
    schema.writtenIn_of_encode hNames
      (fun name _ => Update.entry_empty name) hEncode
  others :=
    (schema.storedIn_of_encode hNames
      (fun name _ => Update.entry_empty name) hEncode).2

/- Nothing but a document is stored of it at its path. -/
theorem Schema.exists_isWritten
    {schema : Schema}
    (hNames : schema.HasDistinctNames)
    {document : schema.Document}
    {root : Path}
    {encoded : Encoded}
    (hEncode :
      schema.encodeDocument document root = .ok encoded) :
    ∃ inner,
      schema.IsWritten document inner ∧
      encoded.update = inner.within root.segments := by
  rcases eq_within_of_encodeDocument hEncode
    with ⟨inner, hInner, hUpdate⟩
  exact ⟨inner, isWritten_of_encode hNames hInner, hUpdate⟩

/- Nothing but a table is written of it into nothing. -/
theorem Table.isWritten_of_foldlM
    {sorted : Bool}
    {key : KeyType}
    {type : FieldType}
    (hNames : type.HasDistinctNames)
    {table : Table sorted key type.Value}
    {update : Update}
    (hFold :
      table.entries.foldlM
          (fun child item =>
            type.encode item.2 (key.written item.1) child)
          .empty = .ok update) :
    table.IsWritten update where
  wellFormed :=
    foldlM_induction Update.WellFormed
      (fun _ _ _ _ hWell hEncode =>
        type.wellFormed_of_encode hWell hEncode)
      Update.wellFormed_empty hFold
  values k item hFind :=
    (FieldType.forms_of_foldlM
      (FieldType.exists_writtenAs hNames)
      table.pairwise_ne (fun _ _ => rfl) hFold).1
      (k, item) (find?_eq_some_iff.mp hFind)
  others name hName := by
    have hOthers :=
      (FieldType.forms_of_foldlM
        (FieldType.exists_writtenAs hNames)
        table.pairwise_ne (fun _ _ => rfl) hFold).2
    refine hOthers name ?_
    intro item hItem hEq
    have hNone := hName item.1 hEq
    rw [find?_eq_some_iff.mpr hItem] at hNone
    cases hNone

------------------------------------------------------------
-- Applying
------------------------------------------------------------

/-
  A document is made of another one if each of its fields is
  made of the field before it.
-/
theorem Schema.IsWritten.apply_fresh
    {schema : Schema}
    {before document after : schema.Document}
    {first second third : Update}
    (hFirst : schema.IsWritten before first)
    (hSecond : schema.IsWritten document second)
    (hThird : schema.IsWritten after third)
    (hFields :
      ∀ name ∈ schema.names,
        (second.entry name).Makes (first.entry name).fresh
          (third.entry name).fresh) :
    second.apply first.fresh = .ok third.fresh := by
  apply Update.apply_fresh hFirst.wellFormed
    hSecond.wellFormed hThird.wellFormed
  intro name
  by_cases hName : name ∈ schema.names
  · exact hFields name hName
  · rw [hFirst.others name hName, hSecond.others name hName,
      hThird.others name hName]
    exact Update.Entry.makes_none _

namespace Table.IsWritten

variable {sorted : Bool} {key : KeyType} {type : FieldType}
variable {before table after : Table sorted key type.Value}
variable {first second third : Update}

/- Nothing is written of a key that a table has not. -/
theorem entry_of_find?_eq_none
    (hWritten : table.IsWritten second)
    {k : key.Value}
    (hFind : table.find? k = none) :
    second.entry (key.written k) = .none := by
  apply hWritten.others
  intro other hEq
  rw [key.written_injective hEq]
  exact hFind

/-
  A table is made of another one if each of its entries is
  made of the entry before it.
-/
theorem apply_fresh
    (hFirst : before.IsWritten first)
    (hSecond : table.IsWritten second)
    (hThird : after.IsWritten third)
    (hKeys :
      ∀ k,
        (second.entry (key.written k)).Makes
          (first.entry (key.written k)).fresh
          (third.entry (key.written k)).fresh) :
    second.apply first.fresh = .ok third.fresh := by
  apply Update.apply_fresh hFirst.wellFormed
    hSecond.wellFormed hThird.wellFormed
  intro name
  by_cases hName : ∃ k, key.written k = name
  · rcases hName with ⟨k, rfl⟩
    exact hKeys k
  · have hOther :
        ∀ (table : Table sorted key type.Value) k,
          key.written k = name → table.find? k = none :=
      fun _ k hEq => absurd ⟨k, hEq⟩ hName
    rw [hFirst.others name (hOther before),
      hSecond.others name (hOther table),
      hThird.others name (hOther after)]
    exact Update.Entry.makes_none _

end Table.IsWritten

------------------------------------------------------------
-- Maps Within
------------------------------------------------------------

namespace FieldType.WrittenAs

section Documents

variable {schema : Schema}
variable {document : (FieldType.document schema).Value}
variable {name : String} {entry : Update.Entry}

/- A document is written as a map of its own. -/
theorem exists_encode
    (hWritten :
      FieldType.WrittenAs (.document schema) document name
        entry) :
    ∃ child,
      schema.encode document .empty = .ok child ∧
      entry = .ofMap child := by
  rcases hWritten with ⟨update, after, hEntry, hEncode, hAfter⟩
  rw [FieldType.encode, bind_eq_ok_iff,
    Update.child_eq_empty hEntry] at hEncode
  rcases hEncode with ⟨child, hChild, hSet⟩
  cases hSet
  rw [(Update.replaces_setChild hEntry child).entry_eq]
    at hAfter
  exact ⟨child, hChild, hAfter.symm⟩

/- Nothing but the document is written to its map. -/
theorem exists_document
    (hWritten :
      FieldType.WrittenAs (.document schema) document name
        entry)
    (hNames : schema.HasDistinctNames) :
    ∃ child,
      schema.IsWritten document child ∧
      entry = .ofMap child := by
  rcases hWritten.exists_encode with ⟨child, hChild, hMap⟩
  exact ⟨child, schema.isWritten_of_encode hNames hChild,
    hMap⟩

end Documents

section Tables

variable {sorted : Bool} {key : KeyType} {type : FieldType}
variable {table : (FieldType.table sorted key type).Value}
variable {name : String} {entry : Update.Entry}

/- A table is written as a map of its own. -/
theorem exists_foldlM
    (hWritten :
      FieldType.WrittenAs (.table sorted key type) table name
        entry) :
    ∃ child,
      (Table.entries table).foldlM
          (fun child item =>
            type.encode item.2 (key.written item.1) child)
          .empty = .ok child ∧
      entry = .ofMap child := by
  rcases hWritten with ⟨update, after, hEntry, hEncode, hAfter⟩
  rw [FieldType.encode, bind_eq_ok_iff,
    Update.child_eq_empty hEntry] at hEncode
  rcases hEncode with ⟨child, hChild, hSet⟩
  cases hSet
  rw [(Update.replaces_setChild hEntry child).entry_eq]
    at hAfter
  exact ⟨child, hChild, hAfter.symm⟩

/- Nothing but the table is written to its map. -/
theorem exists_table
    (hWritten :
      FieldType.WrittenAs (.table sorted key type) table name
        entry)
    (hNames : type.HasDistinctNames) :
    ∃ child,
      Table.IsWritten table child ∧ entry = .ofMap child := by
  rcases hWritten.exists_foldlM with ⟨child, hChild, hMap⟩
  exact ⟨child, Table.isWritten_of_foldlM hNames hChild,
    hMap⟩

end Tables

/- What is written of a value is determined by it. -/
theorem unique
    {type : FieldType}
    (hNames : type.HasDistinctNames)
    {value : type.Value}
    {name : String}
    {entry other : Update.Entry}
    (hEntry : type.WrittenAs value name entry)
    (hOther : type.WrittenAs value name other) :
    entry = other := by
  have hStored := hEntry.storedAs hNames
  have hSame := hOther.storedAs hNames
  cases type with
  | document schema =>
      rcases hEntry.exists_encode with ⟨child, hChild, hMap⟩
      rcases hOther.exists_encode
        with ⟨child', hChild', hMap'⟩
      cases hChild.symm.trans hChild'
      exact hMap.trans hMap'.symm
  | table sorted key type =>
      rcases hEntry.exists_foldlM with ⟨child, hChild, hMap⟩
      rcases hOther.exists_foldlM
        with ⟨child', hChild', hMap'⟩
      cases hChild.symm.trans hChild'
      exact hMap.trans hMap'.symm
  | list element =>
      exact Element.ListStoredAs.unique hStored hSame
  | array element length =>
      exact hStored.2.trans hSame.2.symm
  | float32 => exact hStored.elim
  | float64 => exact hStored.elim
  | char => exact hStored.elim
  | _ => exact Eq.trans hStored (Eq.symm hSame)

/- It can be written wherever there is nothing. -/
theorem exists_encode_at
    {type : FieldType}
    (hNames : type.HasDistinctNames)
    {value : type.Value}
    {name : String}
    {entry : Update.Entry}
    (hWritten : type.WrittenAs value name entry)
    {update : Update}
    (hEntry : update.entry name = .none) :
    ∃ after, type.encode value name update = .ok after := by
  have hStored := hWritten.storedAs hNames
  have hRegister :
      ∀ bytes,
        ∃ after,
          update.writeRegister name bytes = .ok after := by
    intro bytes
    rcases Update.exists_writeRegister hEntry bytes
      with ⟨after, hAfter, _⟩
    exact ⟨after, hAfter⟩
  cases type with
  | int type => exact hRegister _
  | text => exact hRegister _
  | timestamp => exact hRegister _
  | bool => exact ⟨_, rfl⟩
  | slot kind =>
      rcases Update.exists_writeSlot hEntry value
        with ⟨after, hAfter, _⟩
      exact ⟨after, hAfter⟩
  | list element =>
      exact Update.exists_writeItems hEntry hStored
  | array element length =>
      exact Update.exists_writeArray hEntry hStored.1 value
  | document schema =>
      rcases hWritten.exists_encode with ⟨child, hChild, _⟩
      refine ⟨update.setChild name child, ?_⟩
      rw [FieldType.encode, bind_eq_ok_iff,
        Update.child_eq_empty hEntry]
      exact ⟨child, hChild, rfl⟩
  | table sorted key type =>
      rcases hWritten.exists_foldlM with ⟨child, hChild, _⟩
      refine ⟨update.setChild name child, ?_⟩
      rw [FieldType.encode, bind_eq_ok_iff,
        Update.child_eq_empty hEntry]
      exact ⟨child, hChild, rfl⟩
  | float32 => exact hStored.elim
  | float64 => exact hStored.elim
  | char => exact hStored.elim

end FieldType.WrittenAs

end CrdtDoc
