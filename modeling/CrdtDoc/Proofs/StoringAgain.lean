import CrdtDoc.Proofs.WrittenForm

/-
  This file shows that a document that was stored, read, and
  stored again at the same path changes nothing of what is
  stored: everything that was read is written as it was, or
  makes no difference to what is there.

  This needs all flags and registers of the document to be
  given.  An empty slot of these kinds writes nothing, but a
  handle is read from it, whose state is written later on.
  It also needs points in time that can be read again.

  Key definitions include:
    * `Slot.IsGiven`
    * `FieldType.SlotsGiven`
    * `Schema.SlotsGiven`

  Main declarations:
    * `FieldType.makes_again`
    * `Schema.makes_again`
    * `Schema.unchanged_by_storing_again`
-/

namespace CrdtDoc

------------------------------------------------------------
-- Given Slots
------------------------------------------------------------

/- Is a slot filled, if it is for a flag or a register? -/
def Slot.IsGiven :
    {kind : HandleKind} → Slot kind → Prop
  | .counter, _ => True
  | .set, _ => True
  | .flag, slot => slot ≠ none
  | .register, slot => slot ≠ none

mutual
/- Are all flags and registers in a value given? -/
def FieldType.SlotsGiven :
    (type : FieldType) → type.Value → Prop
  | .slot _, slot => Slot.IsGiven slot
  | .document schema, document => schema.SlotsGiven document
  | .table _ _ value, table =>
      ∀ item ∈ Table.entries table, value.SlotsGiven item.2
  | _, _ => True

/- Are all flags and registers in the stored fields given? -/
def Schema.SlotsGiven :
    (schema : Schema) → schema.Document → Prop
  | .nil, _ => True
  | .stored _ _ type rest, (value, values) =>
      type.SlotsGiven value ∧ rest.SlotsGiven values
  | .skipped _ _ rest, (_, values) => rest.SlotsGiven values
  | .context _ rest, (_, values) => rest.SlotsGiven values
end

------------------------------------------------------------
-- Single Entries
------------------------------------------------------------

/- A slot that was restored is written as it was before. -/
theorem Slot.makes_again
    {kind : HandleKind}
    {slot new : Slot kind}
    {binding : Binding}
    (hGiven : slot.IsGiven)
    (hRestored : Slot.Restored binding slot new) :
    new.written.Makes slot.written.fresh
      slot.written.fresh := by
  cases kind with
  | counter =>
      cases hRestored
      refine ⟨rfl, ?_, rfl, rfl, rfl⟩
      refine ⟨slot.elim .zero Counter.pending, ?_, rfl⟩
      rw [Update.sumOf_eq_ok_iff]
      exact Integer.add?_zero _
  | set =>
      rcases hRestored with ⟨items, hNew, _⟩
      cases hNew
      exact Update.Entry.makes_none _
  | flag =>
      cases slot with
      | none => exact absurd rfl hGiven
      | some flag =>
          cases hRestored
          exact ⟨rfl, rfl, rfl, rfl, rfl⟩
  | register =>
      cases slot with
      | none => exact absurd rfl hGiven
      | some register =>
          cases hRestored
          exact ⟨rfl, rfl, rfl, rfl, rfl⟩

/- A list that was restored has the items of the old one. -/
theorem Element.Restored.mem_iff
    {element : Element}
    (hShape : element.shape ≠ .byte)
    {name : String}
    {items new : List element.Value}
    (hRestored : element.Restored name [] items new)
    {item : element.Value} :
    item ∈ new ↔ item ∈ items := by
  have hSet :
      (items = [] → new = []) →
      (items ≠ [] → ∀ item, item ∈ new ↔ item ∈ items) →
      (item ∈ new ↔ item ∈ items) := by
    intro hNil hItems
    by_cases hEmpty : items = []
    · rw [hNil hEmpty, hEmpty]
    · exact hItems hEmpty item
  unfold Restored at hRestored
  split at hRestored
  · rename_i hByte
    exact absurd hByte hShape
  · exact hSet hRestored.1 fun hNe => (hRestored.2 hNe).1
  · exact hSet hRestored.1 fun hNe => (hRestored.2 hNe).1
  · exact hRestored.elim

/- A list that was restored is written as it was before. -/
theorem Element.makes_again
    {element : Element}
    {name : String}
    {items new : List element.Value}
    {entry again : Update.Entry}
    (hEntry : element.ListStoredAs items name entry)
    (hAgain : element.ListStoredAs new name again)
    (hRestored : element.Restored name [] items new) :
    again.Makes entry.fresh entry.fresh := by
  by_cases hShape : element.shape = .byte
  · have hSame : new = items := by
      unfold Element.Restored at hRestored
      rwa [hShape] at hRestored
    subst hSame
    exact Update.Entry.makes_of_registers
      (hEntry.register hShape) (hAgain.register hShape)
      (hEntry.register hShape)
  · rcases hEntry.exists_members hShape
      with ⟨members, hMembers, rfl⟩
    rcases hAgain.exists_members hShape
      with ⟨others, hOthers, rfl⟩
    have hMakes := Update.Entry.makes_added members others
    -- All members that are written again were there before.
    have hSame :
        ∀ member,
          member ∈ members ++ others ↔ member ∈ members := by
      intro member
      rw [List.mem_append]
      refine or_iff_left_of_imp ?_
      intro hMember
      rcases exists_item_of_mem hOthers hMember
        with ⟨item, hItem, hStands⟩
      rcases exists_result_of_mem hMembers
        ((hRestored.mem_iff hShape).mp hItem)
        with ⟨same, hSame, hStands'⟩
      cases hStands.symm.trans hStands'
      exact hSame
    rwa [Update.Entry.fresh_added_congr hSame] at hMakes

/- Whatever a table was restored with restores an entry. -/
theorem FieldType.Restored.exists_item
    {sorted : Bool}
    {key : KeyType}
    {type : FieldType}
    {path : Path}
    {name : String}
    {context : Bytes}
    {old table new : (FieldType.table sorted key type).Value}
    (hRestored :
      FieldType.Restored (.table sorted key type)
        ⟨path, name, context⟩ old table new)
    {k : key.Value}
    {again : type.Value}
    (hFind : Table.find? new k = some again) :
    ∃ item,
      Table.find? table k = some item ∧
      type.Restored
        ⟨path.child name, key.written k, context⟩
        type.default item again := by
  rcases hRestored k with ⟨hSome, hNone⟩
  have hItem :
      ∃ item,
        Table.find? table k = some item ∧
        type.HasEntry item := by
    by_contra hAll
    have hLost :=
      hNone fun item hItem hHas => hAll ⟨item, hItem, hHas⟩
    cases hLost.symm.trans hFind
  rcases hItem with ⟨item, hItem, hHas⟩
  rcases hSome item hItem hHas with ⟨same, hSame, hRestored⟩
  cases hSame.symm.trans hFind
  exact ⟨item, hItem, hRestored⟩

------------------------------------------------------------
-- Documents
------------------------------------------------------------

mutual
/- A value that was restored is written as it was before. -/
theorem FieldType.makes_again :
    (type : FieldType) → type.HasDistinctNames →
      {value new : type.Value} → type.SlotsGiven value →
      {binding : Binding} →
      type.Restored binding type.default value new →
      {entry again : Update.Entry} →
      type.WrittenAs value binding.name entry →
      type.WrittenAs new binding.name again →
      again.Makes entry.fresh entry.fresh
  | .int _, hNames, _, _, _, _, hRestored, _, _, hEntry,
    hAgain => by
      cases hRestored
      exact Update.Entry.makes_of_registers
        (hEntry.storedAs hNames) (hAgain.storedAs hNames)
        (hEntry.storedAs hNames)
  | .text, hNames, _, _, _, _, hRestored, _, _, hEntry,
    hAgain => by
      cases hRestored
      exact Update.Entry.makes_of_registers
        (hEntry.storedAs hNames) (hAgain.storedAs hNames)
        (hEntry.storedAs hNames)
  | .bool, hNames, _, _, _, _, hRestored, _, _, hEntry,
    hAgain => by
      cases hRestored
      exact Update.Entry.makes_of_flags
        (hEntry.storedAs hNames) (hAgain.storedAs hNames)
        (hEntry.storedAs hNames)
  | .timestamp, hNames, _, _, _, _, hRestored, _, _, hEntry,
    hAgain => by
      cases hRestored
      exact Update.Entry.makes_of_registers
        (hEntry.storedAs hNames) (hAgain.storedAs hNames)
        (hEntry.storedAs hNames)
  | .float32, _, _, _, _, _, hRestored, _, _, _, _ =>
      hRestored.elim
  | .float64, _, _, _, _, _, hRestored, _, _, _, _ =>
      hRestored.elim
  | .char, _, _, _, _, _, hRestored, _, _, _, _ =>
      hRestored.elim
  | .slot kind, hNames, slot, new, hGiven, _, hRestored,
    entry, again, hEntry, hAgain => by
      have hEntryIs : entry = Slot.written slot :=
        hEntry.storedAs hNames
      have hAgainIs : again = Slot.written new :=
        hAgain.storedAs hNames
      rw [hEntryIs, hAgainIs]
      exact Slot.makes_again hGiven hRestored
  | .list element, hNames, _, _, _, _, hRestored, _, _,
    hEntry, hAgain =>
      Element.makes_again (hEntry.storedAs hNames)
        (hAgain.storedAs hNames) hRestored
  | .array _ _, hNames, _, _, _, _, hRestored, _, _, hEntry,
    hAgain => by
      cases hRestored
      exact Update.Entry.makes_of_registers
        (hEntry.storedAs hNames).2 (hAgain.storedAs hNames).2
        (hEntry.storedAs hNames).2
  | .document schema, hNames, document, new, hGiven,
    ⟨path, name, context⟩, hRestored, _, _, hEntry,
    hAgain => by
      rcases hEntry.exists_document hNames
        with ⟨child, hChild, rfl⟩
      rcases hAgain.exists_document hNames
        with ⟨other, hOther, rfl⟩
      apply Update.Entry.makes_ofMap
      apply hChild.apply_fresh hOther hChild
      exact schema.makes_again hNames hGiven hRestored
        hChild.fields hOther.fields
  | .table sorted key type, hNames, table, new, hGiven,
    ⟨path, name, context⟩, hRestored, _, _, hEntry,
    hAgain => by
      rcases hEntry.exists_table hNames
        with ⟨child, hChild, rfl⟩
      rcases hAgain.exists_table hNames
        with ⟨other, hOther, rfl⟩
      apply Update.Entry.makes_ofMap
      apply hChild.apply_fresh hOther hChild
      intro k
      cases hFind : Table.find? new k with
      | none =>
          rw [hOther.entry_of_find?_eq_none hFind]
          exact Update.Entry.makes_none _
      | some again =>
          rcases hRestored.exists_item hFind
            with ⟨item, hItem, hRestored⟩
          have hMem := Table.find?_eq_some_iff.mp hItem
          exact type.makes_again hNames (hGiven _ hMem)
            hRestored (hChild.values k item hItem)
            (hOther.values k again hFind)

/- Fields that were restored are written as before. -/
theorem Schema.makes_again :
    (schema : Schema) → schema.HasDistinctNames →
      {document new : schema.Document} →
      schema.SlotsGiven document →
      {path : Path} → {context : Bytes} →
      schema.Restored path context schema.default document
        new →
      {update again : Update} →
      schema.WrittenIn document update →
      schema.WrittenIn new again →
      ∀ name ∈ schema.names,
        (again.entry name).Makes (update.entry name).fresh
          (update.entry name).fresh
  | .nil, _, _, _, _, _, _, _, _, _, _, _, name, hName =>
      absurd hName List.not_mem_nil
  | .stored _ name type rest, hNames, (_, _), (_, _), hGiven,
    _, _, hRestored, _, _, hEntry, hAgain, other, hOther => by
      rcases List.mem_cons.mp hOther with hEq | hRest
      · subst hEq
        exact type.makes_again hNames.2.1 hGiven.1
          hRestored.1 hEntry.1 hAgain.1
      · exact rest.makes_again hNames.2.2 hGiven.2
          hRestored.2 hEntry.2 hAgain.2 other hRest
  | .skipped _ _ rest, hNames, (_, _), (_, _), hGiven,
    _, _, hRestored, _, _, hEntry, hAgain, other, hOther =>
      rest.makes_again hNames hGiven hRestored.2 hEntry
        hAgain other hOther
  | .context _ rest, hNames, (_, _), (_, _), hGiven,
    _, _, hRestored, _, _, hEntry, hAgain, other, hOther =>
      rest.makes_again hNames hGiven hRestored.2 hEntry
        hAgain other hOther
end

namespace Schema

variable {schema : Schema}

/-
  A document of a storable schema in which all flags and
  registers are given is stored at any path of an empty map.
  It can be read there if and only if its points in time are
  regular.  Then what was read can be stored there again,
  which leaves the map exactly as it was.
-/
theorem unchanged_by_storing_again
    (hStorable : schema.IsStorable)
    (hNames : schema.HasDistinctNames)
    (document : schema.Document)
    (hGiven : schema.SlotsGiven document)
    (root : Path)
    (context : Bytes) :
    ∃ encoded map again,
      schema.encodeDocument document root = .ok encoded ∧
      encoded.update.apply .empty = .ok map ∧
      let read :=
        schema.decodeDocument map context root schema.default
      (read.1 = .ok () ↔ schema.TimesRegular document) ∧
      schema.encodeDocument read.2 root = .ok again ∧
      (schema.TimesRegular document →
        again.update.apply map = .ok map) := by
  rcases exists_encodeDocument hStorable hNames document root
    with ⟨encoded, hEncoded⟩
  rcases exists_isWritten hNames hEncoded
    with ⟨inner, hInner, hUpdate⟩
  have hStored :=
    schema.storedIn_of_writtenIn hNames hInner.fields
  let read :=
    schema.decode ⟨inner.fresh, root, context⟩ schema.default
  rcases exists_encodeDocument hStorable hNames read.2 root
    with ⟨again, hAgain⟩
  rcases exists_isWritten hNames hAgain
    with ⟨other, hOther, hUpdate'⟩
  refine ⟨encoded, (inner.within root.segments).fresh, again,
    hEncoded, ?_, ?_⟩
  · rw [hUpdate]
    exact Update.apply_empty _
      (hInner.wellFormed.within root.segments)
  · rw [decodeDocument_fresh_within,
      ← hStorable.isReadable_iff document]
    refine ⟨decode_ok_iff_isReadable hStored root context _,
      hAgain, ?_⟩
    intro hReadable
    have hRestored :=
      restored_of_isReadable hStored hReadable root context
        schema.default
    rw [hUpdate']
    apply Update.apply_fresh_within
    apply hInner.apply_fresh hOther hInner
    exact schema.makes_again hNames hGiven hRestored
      hInner.fields hOther.fields

/- A document of all kinds of slots can be stored again. -/
theorem unchanged_by_storing_again_profile :
    let profile : Schema :=
      .stored "since" "since" .timestamp
        (.stored "tags" "tags" (.list .text)
          (.stored "visits" "visits" (.slot .counter)
            (.stored "friends" "friends" (.slot .set)
              (.stored "active" "active" (.slot .flag)
                (.stored "notes" "notes"
                  (.table true (.int .u16) (.slot .register))
                  (.skipped "cache" .float64
                    (.context "version" .nil)))))))
    let binding := Binding.ofName (.root ⟨"b", "t", "k"⟩) "n"
    let notes : Table true (.int .u16) (Slot .register) :=
      Table.empty.insert (Integer.zero : Integer .u16)
        (some ⟨binding, [104, 105]⟩)
    let leap : Timestamp :=
      ⟨59, 1500000000, by decide, by decide⟩
    let document : profile.Document :=
      (leap, ["b", "a", "b"], none,
        some ⟨binding, [], [[7]], []⟩, some ⟨binding, true⟩,
        notes, FieldType.default .float64, [1], ())
    let root := (Path.root ⟨"b", "maps", "k"⟩).child "user"
    profile.IsStorable ∧ profile.HasDistinctNames ∧
    profile.SlotsGiven document ∧
    profile.TimesRegular document ∧
    ∃ encoded map again,
      profile.encodeDocument document root = .ok encoded ∧
      encoded.update.apply .empty = .ok map ∧
      let read :=
        profile.decodeDocument map [2] root profile.default
      read.1 = .ok () ∧
      profile.encodeDocument read.2 root = .ok again ∧
      again.update.apply map = .ok map := by
  intro profile binding notes leap document root
  have hStorable : profile.IsStorable :=
    ⟨trivial, trivial, trivial, trivial, trivial, trivial,
      trivial⟩
  have hNames : profile.HasDistinctNames :=
    ⟨by decide, trivial, by decide, trivial, by decide,
      trivial, by decide, trivial, by decide, trivial,
      List.not_mem_nil, trivial, trivial⟩
  have hNotes :
      ∀ item ∈ Table.entries notes,
        Slot.IsGiven item.2 := by
    intro item hItem
    cases List.mem_singleton.mp hItem
    exact Option.some_ne_none _
  have hGiven : profile.SlotsGiven document :=
    ⟨trivial, trivial, trivial, trivial,
      Option.some_ne_none _, hNotes, trivial⟩
  have hLeap : leap.IsRegular := by
    decide
  have hTimes : profile.TimesRegular document :=
    ⟨hLeap, trivial, trivial, trivial, trivial,
      fun _ _ => trivial, trivial⟩
  refine ⟨hStorable, hNames, hGiven, hTimes, ?_⟩
  rcases unchanged_by_storing_again hStorable hNames document
    hGiven root [2]
    with ⟨encoded, map, again, hEncoded, hMap, hRead, hAgain,
      hSame⟩
  exact ⟨encoded, map, again, hEncoded, hMap,
    hRead.mpr hTimes, hAgain, hSame hTimes⟩

/-
  A leap second where no minute ends is stored, but not read.
  Storing the default that is left changes what is stored.
-/
theorem leap_second_changed_by_storing_again :
    let clock : Schema := .stored "at" "at" .timestamp .nil
    let leap : Timestamp :=
      ⟨0, 1500000000, by decide, by decide⟩
    let root := Path.root ⟨"b", "t", "k"⟩
    clock.IsStorable ∧ clock.HasDistinctNames ∧
    clock.SlotsGiven (leap, ()) ∧
    ∃ encoded map again after,
      clock.encodeDocument (leap, ()) root = .ok encoded ∧
      encoded.update.apply .empty = .ok map ∧
      clock.decodeDocument map [] root clock.default =
        (.error (.invalidTimestamp "at" .outOfRange),
          clock.default) ∧
      clock.encodeDocument clock.default root = .ok again ∧
      again.update.apply map = .ok after ∧
      after ≠ map := by
  intro clock leap root
  have hNames : clock.HasDistinctNames :=
    ⟨List.not_mem_nil, trivial, trivial⟩
  have hLeap : ¬leap.IsRegular := by
    decide
  refine ⟨⟨trivial, trivial⟩, hNames, ⟨trivial, trivial⟩, _,
    _, _, _, rfl, rfl, ?_, rfl, rfl, ?_⟩
  · exact decode_stored_of_error
      (FieldType.decode_of_not_isRegular rfl hLeap _) _
  · intro hSame
    have hBytes :=
      congrArg (fun map => map.register? "at") hSame
    exact absurd hBytes (by decide)

end Schema

end CrdtDoc
