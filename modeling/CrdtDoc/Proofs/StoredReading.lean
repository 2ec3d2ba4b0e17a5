import CrdtDoc.Proofs.FreshReading
import CrdtDoc.Proofs.Storable
import CrdtDoc.Proofs.TableReading

/-
  This file shows what is read from stored forms: that they
  restore what was stored as long as all tables have a kind
  of values and all points in time are regular, and that
  nothing is read otherwise.

  Main declarations:
    * `FieldType.exists_restored`
    * `Schema.exists_restored`
    * `FieldType.isReadable_of_decode`
    * `Schema.isReadable_of_decode`
    * `Schema.decode_ok_iff_isReadable`
    * `Schema.restored_of_isReadable`
-/

namespace CrdtDoc

------------------------------------------------------------
-- Entries of Tables
------------------------------------------------------------

/- A list of bytes has a register, others if not empty. -/
theorem Element.has_iff
    (element : Element)
    {items : List element.Value}
    {name : String}
    {entry : Update.Entry}
    (hStored : element.ListStoredAs items name entry) :
    entry.fresh.Has (FieldType.listKind element) ↔
      element.shape = .byte ∨ items ≠ [] := by
  unfold FieldType.listKind
  rcases hStored.register_or_set
    with ⟨hShape, hRegister⟩ |
      ⟨hShape, members, hMembers, hAdds⟩
  · subst hRegister
    rw [hShape]
    exact iff_of_true (Option.some_ne_none _) (Or.inl rfl)
  · subst hAdds
    have hSet :
        (Update.Entry.added members).map
            (Members.insertAll []) ≠ none ↔
          items ≠ [] := by
      have hLength :=
        (mapM_eq_ok_iff.mp hMembers).length_eq
      apply not_congr
      rw [Option.map_eq_none_iff,
        Update.Entry.added_eq_none_iff,
        ← List.length_eq_zero_iff, ← hLength,
        List.length_eq_zero_iff]
    rcases hShape with hShape | hShape
    · rw [hShape]
      exact hSet.trans (or_iff_right Shape.noConfusion).symm
    · rw [hShape]
      exact hSet.trans (or_iff_right Shape.noConfusion).symm

/-
  A stored form has an entry of the kind of its type if the
  value has.
-/
theorem FieldType.has_iff_hasEntry
    {type : FieldType}
    {value : type.Value}
    {name : String}
    {entry : Update.Entry}
    (hStored : type.StoredAs value name entry) :
    entry.fresh.Has type.kind ↔ type.HasEntry value := by
  have hRegister :
      ∀ bytes,
        (Update.Entry.ofRegister bytes).fresh.Has .register :=
    fun bytes => Option.some_ne_none bytes
  cases type with
  | int type =>
      cases hStored
      exact iff_of_true (hRegister _) trivial
  | text =>
      cases hStored
      exact iff_of_true (hRegister _) trivial
  | bool =>
      cases hStored
      exact iff_of_true (Option.some_ne_none _) trivial
  | timestamp =>
      cases hStored
      exact iff_of_true (hRegister _) trivial
  | float32 => exact hStored.elim
  | float64 => exact hStored.elim
  | char => exact hStored.elim
  | slot kind =>
      cases hStored
      cases kind with
      | counter =>
          exact iff_of_true (Option.some_ne_none _) trivial
      | set =>
          apply not_congr
          apply Option.map_eq_none_iff.trans
          exact Update.Entry.added_eq_none_iff
      | flag => exact not_congr Option.map_eq_none_iff
      | register => exact not_congr Option.map_eq_none_iff
  | list element => exact element.has_iff hStored
  | array element length =>
      rcases hStored with ⟨hBytes, hEntry⟩
      cases hEntry
      change CrdtMap.Entry.Has _ (arrayKind element length) ↔ _
      rw [arrayKind, if_pos hBytes]
      exact iff_of_true (hRegister _) trivial
  | document schema =>
      rcases hStored with ⟨child, _, hEntry⟩
      cases hEntry
      exact iff_of_true (Option.some_ne_none _) trivial
  | table sorted key value =>
      rcases hStored with ⟨child, _, _, hEntry⟩
      cases hEntry
      exact iff_of_true (Option.some_ne_none _) trivial

/- A fresh map names a value by its kind if it has it. -/
theorem FieldType.mem_namesOf_iff_hasEntry
    {type : FieldType}
    {value : type.Value}
    {name : String}
    {update : Update}
    (hStored : type.StoredAs value name (update.entry name)) :
    name ∈ update.fresh.namesOf type.kind ↔
      type.HasEntry value := by
  rw [CrdtMap.mem_namesOf_iff, Update.entry_fresh]
  exact has_iff_hasEntry hStored

/-
  An entry of a table is read from its stored form, if a
  field of the type is.
-/
theorem FieldType.exists_readEntry_restored
    (type : FieldType)
    {value : type.Value}
    {name : String}
    {entry : Update.Entry}
    (hStored : type.StoredAs value name entry)
    {source : Source}
    (hEntry : source.map.entry name = entry.fresh)
    (hField :
      ∃ new,
        type.decode name source type.default =
          (.ok (), new) ∧
        type.Restored (source.binding name) type.default
          value new) :
    ∃ new,
      type.readEntry name source (type.decode name source) =
        .ok new ∧
      type.Restored (source.binding name) type.default
        value new := by
  have hBytes :
      ∀ bytes,
        entry = .ofRegister bytes →
          source.bytes name = bytes := by
    intro bytes hRegister
    subst hRegister
    exact Source.bytes_eq_of_register
      (CrdtMap.register?_of_entry hEntry)
  by_cases hStrict : type.IsStrictEntry
  · cases type with
    | int type =>
        refine ⟨value, ?_, rfl⟩
        change Element.integerOf type name _ = _
        rw [hBytes _ hStored]
        exact Element.integerOf_text name value
    | text =>
        refine ⟨value, ?_, rfl⟩
        change Element.textOf name _ = _
        rw [hBytes _ hStored]
        exact Element.textOf_encode name value
    | array element length =>
        rcases hStored with ⟨hByte, hRegister⟩
        refine ⟨value, ?_, rfl⟩
        rw [FieldType.readEntry_array hByte,
          hBytes _ hRegister]
        exact Element.arrayOf_bytes hByte name value
    | _ => exact hStrict.elim
  · rcases hField with ⟨new, hDecode, hRestored⟩
    refine ⟨new, ?_, hRestored⟩
    rw [FieldType.readEntry_eq_result hStrict, hDecode]
    rfl

section Tables

variable {sorted : Bool} {key : KeyType} {value : FieldType}
variable {table : Table sorted key value.Value}
variable {child : Update}

/- Every name of a fresh map is that of a key stored. -/
theorem Table.exists_of_mem_namesOf
    (hOthers :
      ∀ other,
        (∀ item ∈ table.entries,
          key.written item.1 ≠ other) →
        child.entry other = .none)
    {kind : FieldKind}
    {name : String}
    (hName : name ∈ child.fresh.namesOf kind) :
    ∃ item ∈ table.entries, key.written item.1 = name := by
  by_contra hNone
  have hEntry : child.entry name = .none := by
    apply hOthers
    intro item hItem hEq
    exact hNone ⟨item, hItem, hEq⟩
  rw [CrdtMap.mem_namesOf_iff, Update.entry_fresh, hEntry]
    at hName
  cases kind with
  | unsupported kind => exact hName
  | _ => exact hName rfl

/-
  A table is read from its stored form, if the values of its
  entries are.
-/
theorem Source.exists_table_restored
    (hItems :
      ∀ item ∈ table.entries,
        value.StoredAs item.2 (key.written item.1)
          (child.entry (key.written item.1)))
    (hOthers :
      ∀ other,
        (∀ item ∈ table.entries,
          key.written item.1 ≠ other) →
        child.entry other = .none)
    (hKind : ∀ kind, value.kind ≠ .unsupported kind)
    (path : Path)
    (context : Bytes)
    (hValues :
      ∀ item ∈ table.entries, ∃ new,
        value.decode (key.written item.1)
            ⟨child.fresh, path, context⟩ value.default =
          (.ok (), new) ∧
        value.Restored ⟨path, key.written item.1, context⟩
          value.default item.2 new)
    (field : String) :
    ∃ new : Table sorted key value.Value,
      Source.table ⟨child.fresh, path, context⟩ field sorted
          key value
          (fun entry =>
            value.decode entry ⟨child.fresh, path, context⟩) =
        .ok new ∧
      ∀ k,
        (∀ item,
          table.find? k = some item →
          value.HasEntry item →
          ∃ again,
            new.find? k = some again ∧
            value.Restored ⟨path, key.written k, context⟩
              value.default item again) ∧
        ((∀ item,
          table.find? k = some item →
          ¬value.HasEntry item) →
          new.find? k = none) := by
  have hRead :
      ∀ item ∈ table.entries, ∃ new,
        ReadsEntry ⟨child.fresh, path, context⟩ field key
          value
          (fun entry =>
            value.decode entry ⟨child.fresh, path, context⟩)
          (key.written item.1) item.1 new ∧
        value.Restored ⟨path, key.written item.1, context⟩
          value.default item.2 new := by
    intro item hItem
    rcases value.exists_readEntry_restored
      (hItems item hItem) (Update.entry_fresh child _)
      (hValues item hItem) with ⟨new, hNew, hRestored⟩
    exact ⟨new, ⟨key.read_written field item.1, hNew⟩,
      hRestored⟩
  have hTable :
      ∃ new : Table sorted key value.Value,
        Source.table ⟨child.fresh, path, context⟩ field
          sorted key value
          (fun entry =>
            value.decode entry
              ⟨child.fresh, path, context⟩) = .ok new := by
    apply exists_table hKind
    intro name hName
    rcases Table.exists_of_mem_namesOf hOthers hName
      with ⟨item, hItem, hEq⟩
    rcases hRead item hItem with ⟨new, hNew, _⟩
    exact ⟨item.1, new, hEq ▸ hNew⟩
  rcases hTable with ⟨new, hNew⟩
  -- What is found under a key comes from the key's own entry.
  have hFound :
      ∀ k again, new.find? k = some again →
        ∃ item,
          table.find? k = some item ∧
          value.HasEntry item ∧
          value.Restored ⟨path, key.written k, context⟩
            value.default item again := by
    intro k again hFind
    rcases readsEntry_of_find? hNew hFind
      with ⟨name, hName, hKey, hAgain⟩
    rcases Table.exists_of_mem_namesOf hOthers hName
      with ⟨item, hItem, hEq⟩
    subst hEq
    rw [key.read_written] at hKey
    cases hKey
    rcases hRead item hItem with ⟨same, hSame, hRestored⟩
    have hBoth := hSame.2.symm.trans hAgain
    cases hBoth
    have hFirst := Table.find?_eq_some_iff.mpr hItem
    have hHas :=
      (FieldType.mem_namesOf_iff_hasEntry
        (hItems item hItem)).mp hName
    exact ⟨item.2, hFirst, hHas, hRestored⟩
  refine ⟨new, hNew, ?_⟩
  intro k
  constructor
  · intro item hFind hHas
    have hItem := Table.find?_eq_some_iff.mp hFind
    have hName :
        key.written k ∈ child.fresh.namesOf value.kind :=
      (FieldType.mem_namesOf_iff_hasEntry
        (hItems (k, item) hItem)).mpr hHas
    rcases exists_readsEntry hNew hName
      with ⟨other, _, ⟨hKey, _⟩, hOther⟩
    rw [key.read_written] at hKey
    cases hKey
    rcases Option.ne_none_iff_exists'.mp hOther
      with ⟨again, hAgain⟩
    rcases hFound k again hAgain
      with ⟨same, hSame, _, hRestored⟩
    rw [hFind] at hSame
    cases hSame
    exact ⟨again, hAgain, hRestored⟩
  · intro hNone
    apply Option.eq_none_iff_forall_ne_some.mpr
    intro again hAgain
    rcases hFound k again hAgain
      with ⟨item, hItem, hHas, _⟩
    exact hNone item hItem hHas

end Tables

------------------------------------------------------------
-- Documents
------------------------------------------------------------

mutual
/- A value is restored from its stored form. -/
theorem FieldType.exists_restored :
    (type : FieldType) → {value : type.Value} →
      {name : String} → {entry : Update.Entry} →
      type.StoredAs value name entry → (source : Source) →
      source.map.entry name = entry.fresh →
      type.IsReadable value → (old : type.Value) →
      ∃ new,
        type.decode name source old = (.ok (), new) ∧
        type.Restored (source.binding name) old value new
  | .int type, value, name, _, hStored, source, hEntry, _,
    old => by
      cases hStored
      have hRegister := CrdtMap.register?_of_entry hEntry
      have hText := Integer.decode?_encode_text value
      refine ⟨value, ?_, rfl⟩
      exact Reading.orKeep_of_register hRegister hText old
  | .text, value, name, _, hStored, source, hEntry, _,
    old => by
      cases hStored
      have hRegister := CrdtMap.register?_of_entry hEntry
      refine ⟨value, ?_, rfl⟩
      apply Reading.orKeep_of_register hRegister
      exact Text.decode?_eq_some_iff.mpr rfl
  | .bool, value, name, _, hStored, source, hEntry, _,
    old => by
      cases hStored
      have hFlag : source.map.flag? name = some value :=
        congrArg CrdtMap.Entry.flag hEntry
      refine ⟨value, ?_, rfl⟩
      rw [FieldType.decode, hFlag]
      rfl
  | .timestamp, value, name, _, hStored, source, hEntry,
    hReadable, old => by
      cases hStored
      have hRegister := CrdtMap.register?_of_entry hEntry
      have hTime : source.timestamp name old = .ok value :=
        (Source.timestamp_eq_ok_iff hRegister).mpr
          ⟨rfl, hReadable⟩
      refine ⟨value, ?_, rfl⟩
      exact congrArg (Reading.replace old) hTime
  | .float32, _, _, _, hStored, _, _, _, _ => hStored.elim
  | .float64, _, _, _, hStored, _, _, _, _ => hStored.elim
  | .char, _, _, _, hStored, _, _, _, _ => hStored.elim
  | .slot kind, slot, name, _, hStored, source, hEntry, _,
    _ => by
      cases hStored
      exact ⟨_, rfl, Slot.restored_load hEntry⟩
  | .list element, items, name, _, hStored, source, hEntry,
    _, old => by
      rcases Source.exists_items_restored hStored hEntry old
        with ⟨new, hNew, hRestored⟩
      refine ⟨new, ?_, hRestored⟩
      rw [FieldType.decode, hNew]
      rfl
  | .array element length, items, name, _, hStored, source,
    hEntry, _, old => by
      rcases hStored with ⟨hBytes, hRegister⟩
      subst hRegister
      have hFound := CrdtMap.register?_of_entry hEntry
      have hArray :=
        Source.array_of_register hBytes hFound old
      refine ⟨items, ?_, rfl⟩
      exact congrArg (Reading.replace old) hArray
  | .document schema, document, name, _, hStored, source,
    hEntry, hReadable, old => by
      rcases hStored with ⟨child, hChild, hMap⟩
      subst hMap
      rcases schema.exists_restored hChild
        (source.path.child name) source.context hReadable old
        with ⟨new, hNew, hRestored⟩
      refine ⟨new, ?_, hRestored⟩
      rw [FieldType.decode, Source.child?,
        CrdtMap.map?_of_entry hEntry]
      exact hNew
  | .table sorted key value, table, name, _, hStored, source,
    hEntry, hReadable, old => by
      rcases hStored with ⟨child, hItems, hOthers, hMap⟩
      subst hMap
      have hValues :
          ∀ item ∈ Table.entries table, ∃ new,
            value.decode (key.written item.1)
                ⟨child.fresh, source.path.child name,
                  source.context⟩ value.default =
              (.ok (), new) ∧
            value.Restored
              ⟨source.path.child name, key.written item.1,
                source.context⟩
              value.default item.2 new := by
        intro item hItem
        exact value.exists_restored (hItems item hItem) _
          (Update.entry_fresh child _)
          (hReadable.2 item hItem) value.default
      rcases Source.exists_table_restored hItems hOthers
        hReadable.1 (source.path.child name) source.context
        hValues name with ⟨new, hNew, hRestored⟩
      refine ⟨new, ?_, hRestored⟩
      rw [FieldType.decode, Source.child?,
        CrdtMap.map?_of_entry hEntry]
      simp only [Option.map_some, hNew]
      rfl

/- A document is restored from its stored form. -/
theorem Schema.exists_restored :
    (schema : Schema) → {document : schema.Document} →
      {update : Update} →
      schema.StoredIn document update →
      (path : Path) → (context : Bytes) →
      schema.IsReadable document →
      (old : schema.Document) →
      ∃ new,
        schema.decode ⟨update.fresh, path, context⟩ old =
          (.ok (), new) ∧
        schema.Restored path context old document new
  | .nil, _, _, _, _, _, _, old => ⟨old, rfl, trivial⟩
  | .stored _ name type rest, (value, values), update,
    hStored, path, context, hReadable, (old, olds) => by
      rcases type.exists_restored hStored.1
        ⟨update.fresh, path, context⟩
        (Update.entry_fresh update name) hReadable.1 old
        with ⟨new, hNew, hRestored⟩
      rcases rest.exists_restored hStored.2 path context
        hReadable.2 olds
        with ⟨news, hNews, hRest⟩
      exact ⟨(new, news),
        Schema.decode_stored_eq_ok_iff.mpr ⟨hNew, hNews⟩,
        hRestored, hRest⟩
  | .skipped _ _ rest, (_, values), update, hStored, path,
    context, hReadable, (old, olds) => by
      rcases rest.exists_restored hStored path context
        hReadable olds
        with ⟨news, hNews, hRest⟩
      exact ⟨(old, news),
        Schema.decode_skipped_eq_ok_iff.mpr ⟨rfl, hNews⟩,
        rfl, hRest⟩
  | .context _ rest, (_, values), update, hStored, path,
    context, hReadable, (_, olds) => by
      rcases rest.exists_restored hStored path context
        hReadable olds
        with ⟨news, hNews, hRest⟩
      exact ⟨(context, news),
        Schema.decode_context_eq_ok_iff.mpr ⟨rfl, hNews⟩,
        rfl, hRest⟩
end

------------------------------------------------------------
-- Values That Cannot Be Read
------------------------------------------------------------

/- A value without an entry of its kind is not in the way. -/
theorem FieldType.isReadable_of_not_hasEntry
    {type : FieldType}
    {value : type.Value}
    (hEntry : ¬type.HasEntry value) :
    type.IsReadable value := by
  cases type with
  | slot kind => trivial
  | list element => trivial
  | _ => exact absurd trivial hEntry

/- A value whose entry must fit is not in the way either. -/
theorem FieldType.isReadable_of_isStrictEntry
    {type : FieldType}
    (hStrict : type.IsStrictEntry)
    (value : type.Value) :
    type.IsReadable value := by
  cases type with
  | int type => trivial
  | text => trivial
  | array element length => trivial
  | _ => exact hStrict.elim

mutual
/- What is read of a stored value shows it is readable. -/
theorem FieldType.isReadable_of_decode :
    (type : FieldType) → {value : type.Value} →
      {name : String} → {entry : Update.Entry} →
      type.StoredAs value name entry → {source : Source} →
      source.map.entry name = entry.fresh →
      {old new : type.Value} →
      type.decode name source old = (.ok (), new) →
      type.IsReadable value
  | .int _, _, _, _, _, _, _, _, _, _ => trivial
  | .text, _, _, _, _, _, _, _, _, _ => trivial
  | .bool, _, _, _, _, _, _, _, _, _ => trivial
  | .timestamp, _, _, _, hStored, _, hEntry, _, _,
    hDecode => by
      cases hStored
      have hRegister := CrdtMap.register?_of_entry hEntry
      have hTime := Reading.eq_of_replace hDecode
      exact ((Source.timestamp_eq_ok_iff hRegister).mp hTime).2
  | .float32, _, _, _, _, _, _, _, _, _ => trivial
  | .float64, _, _, _, _, _, _, _, _, _ => trivial
  | .char, _, _, _, _, _, _, _, _, _ => trivial
  | .slot _, _, _, _, _, _, _, _, _, _ => trivial
  | .list _, _, _, _, _, _, _, _, _, _ => trivial
  | .array _ _, _, _, _, _, _, _, _, _, _ => trivial
  | .document schema, _, name, _, hStored, source, hEntry,
    _, _, hDecode => by
      rcases hStored with ⟨child, hChild, hMap⟩
      subst hMap
      rw [FieldType.decode, Source.child?,
        CrdtMap.map?_of_entry hEntry] at hDecode
      exact schema.isReadable_of_decode hChild hDecode
  | .table _ key value, table, name, _, hStored, source,
    hEntry, _, _, hDecode => by
      rcases hStored with ⟨child, hItems, _, hMap⟩
      subst hMap
      rw [FieldType.decode, Source.child?,
        CrdtMap.map?_of_entry hEntry] at hDecode
      have hTable := Reading.eq_of_replace hDecode
      refine ⟨Source.kind_ne_of_table hTable, ?_⟩
      intro item hItem
      have hStored := hItems item hItem
      by_cases hHas : value.HasEntry item.2
      · by_cases hStrict : value.IsStrictEntry
        · exact FieldType.isReadable_of_isStrictEntry
            hStrict item.2
        · have hName :
              key.written item.1 ∈
                child.fresh.namesOf value.kind :=
            (FieldType.mem_namesOf_iff_hasEntry
              hStored).mpr hHas
          rcases Source.exists_readsEntry hTable hName
            with ⟨_, _, ⟨_, hRead⟩, _⟩
          exact value.isReadable_of_decode hStored
            (Update.entry_fresh child _)
            (FieldType.decode_of_readEntry hStrict hRead)
      · exact FieldType.isReadable_of_not_hasEntry hHas

/- What is read of a document shows it is readable. -/
theorem Schema.isReadable_of_decode :
    (schema : Schema) → {document : schema.Document} →
      {update : Update} →
      schema.StoredIn document update →
      {path : Path} → {context : Bytes} →
      {old new : schema.Document} →
      schema.decode ⟨update.fresh, path, context⟩ old =
        (.ok (), new) →
      schema.IsReadable document
  | .nil, _, _, _, _, _, _, _, _ => trivial
  | .stored _ name type rest, (_, _), update, hStored, _, _,
    _, _, hDecode => by
      rcases Schema.decode_stored_eq_ok_iff.mp hDecode
        with ⟨hValue, hRest⟩
      exact ⟨type.isReadable_of_decode hStored.1
          (Update.entry_fresh update name) hValue,
        rest.isReadable_of_decode hStored.2 hRest⟩
  | .skipped _ _ rest, (_, _), _, hStored, _, _, _, _,
    hDecode =>
      rest.isReadable_of_decode hStored
        (Schema.decode_skipped_eq_ok_iff.mp hDecode).2
  | .context _ rest, (_, _), _, hStored, _, _, _, _,
    hDecode =>
      rest.isReadable_of_decode hStored
        (Schema.decode_context_eq_ok_iff.mp hDecode).2
end

namespace Schema

variable {schema : Schema} {document : schema.Document}
variable {update : Update}

/- What is stored of a document can be read if it may be. -/
theorem decode_ok_iff_isReadable
    (hStored : schema.StoredIn document update)
    (path : Path)
    (context : Bytes)
    (old : schema.Document) :
    (schema.decode ⟨update.fresh, path, context⟩ old).1 =
        .ok () ↔
      schema.IsReadable document := by
  constructor
  · intro hRead
    exact schema.isReadable_of_decode hStored
      (Prod.ext hRead rfl)
  · intro hReadable
    rcases schema.exists_restored hStored path context
      hReadable old with ⟨new, hNew, _⟩
    rw [hNew]

/- A readable document is restored by reading it. -/
theorem restored_of_isReadable
    (hStored : schema.StoredIn document update)
    (hReadable : schema.IsReadable document)
    (path : Path)
    (context : Bytes)
    (old : schema.Document) :
    schema.Restored path context old document
      (schema.decode ⟨update.fresh, path, context⟩ old).2 := by
  rcases schema.exists_restored hStored path context
    hReadable old with ⟨new, hNew, hRestored⟩
  rw [hNew]
  exact hRestored

end Schema

end CrdtDoc
