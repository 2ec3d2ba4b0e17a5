import CrdtDoc.Proofs.WrittenForm

/-
  This file shows what two documents come to that are stored
  at the same path one after the other: the same as if they
  had been merged before.

  In a merge, scalars, byte strings and arrays are those of
  the second document, sets have the items of both, and
  documents and tables are merged field by field and key by
  key.  It is read back as any document is that was stored
  at once, if its points in time can be read again.

  Key definitions include:
    * `Table.mergeWith`
    * `FieldType.merge`
    * `Schema.merge`
    * `Schema.HasNoSlots`

  Main declarations:
    * `Table.find?_mergeWith`
    * `FieldType.makes_merge`
    * `Schema.makes_merge`
    * `Schema.merged_by_storing_both`
-/

namespace CrdtDoc

------------------------------------------------------------
-- Tables
------------------------------------------------------------

namespace Table

variable {sorted : Bool} {key : KeyType} {α : Type}

/- Entries of both tables, merged where both have the key. -/
def mergeWith
    (merge : α → α → α)
    (first second : Table sorted key α) :
    Table sorted key α :=
  second.entries.foldl
    (fun table item =>
      table.insert item.1
        ((first.find? item.1).elim item.2 (merge · item.2)))
    first

/- Of entries with different keys, each is found. -/
theorem find?_foldl_insert
    (value : key.Value × α → α)
    {items : List (key.Value × α)}
    (hKeys : items.Pairwise fun a b => a.1 ≠ b.1)
    (table : Table sorted key α)
    (k : key.Value) :
    (items.foldl
        (fun table item => table.insert item.1 (value item))
        table).find? k =
      ((items.lookup k).map fun item => value (k, item)).or
        (table.find? k) := by
  induction items generalizing table with
  | nil => rfl
  | cons first rest ih =>
      rcases first with ⟨other, item⟩
      rcases List.pairwise_cons.mp hKeys with ⟨hFirst, hRest⟩
      rw [List.foldl_cons, ih hRest, find?_insert,
        List.lookup_cons]
      by_cases hEq : k = other
      · subst hEq
        have hNone : rest.lookup k = none := by
          refine List.lookup_eq_none_iff.mpr ?_
          intro entry hEntry
          exact bne_iff_ne.mpr (hFirst entry hEntry)
        simp [hNone]
      · simp [beq_eq_false_iff_ne.mpr hEq, hEq]

/- A key has the values of both tables, merged if needed. -/
theorem find?_mergeWith
    (merge : α → α → α)
    (first second : Table sorted key α)
    (k : key.Value) :
    (mergeWith merge first second).find? k =
      Option.merge merge (first.find? k) (second.find? k) := by
  rw [mergeWith, find?_foldl_insert _ second.pairwise_ne]
  change ((second.find? k).map _).or _ = _
  cases hFirst : first.find? k <;> cases second.find? k <;>
    simp [hFirst, Option.merge]

end Table

------------------------------------------------------------
-- Merges
------------------------------------------------------------

/- A byte string is replaced, and a set has all items. -/
def Element.merge
    (element : Element)
    (first second : List element.Value) :
    List element.Value :=
  if element.shape = .byte then second else first ++ second

mutual
/- The value that two values come to. -/
def FieldType.merge :
    (type : FieldType) → type.Value → type.Value →
      type.Value
  | .list element, first, second =>
      element.merge first second
  | .document schema, first, second =>
      schema.merge first second
  | .table _ _ value, first, second =>
      Table.mergeWith value.merge first second
  | .int _, _, second => second
  | .text, _, second => second
  | .bool, _, second => second
  | .timestamp, _, second => second
  | .float32, _, second => second
  | .float64, _, second => second
  | .char, _, second => second
  | .slot _, _, second => second
  | .array _ _, _, second => second

/- The document that two documents come to. -/
def Schema.merge :
    (schema : Schema) → schema.Document → schema.Document →
      schema.Document
  | .nil, _, second => second
  | .stored _ _ type rest, (first, firsts),
    (second, seconds) =>
      (type.merge first second, rest.merge firsts seconds)
  | .skipped _ _ rest, (_, firsts), (second, seconds) =>
      (second, rest.merge firsts seconds)
  | .context _ rest, (_, firsts), (second, seconds) =>
      (second, rest.merge firsts seconds)
end

mutual
/- Is there no slot in a type, at any depth? -/
def FieldType.HasNoSlots : FieldType → Prop
  | .slot _ => False
  | .document schema => schema.HasNoSlots
  | .table _ _ value => value.HasNoSlots
  | _ => True

/- Is there no slot in the stored fields, at any depth? -/
def Schema.HasNoSlots : Schema → Prop
  | .nil => True
  | .stored _ _ type rest =>
      type.HasNoSlots ∧ rest.HasNoSlots
  | .skipped _ _ rest => rest.HasNoSlots
  | .context _ rest => rest.HasNoSlots
end

------------------------------------------------------------
-- Single Entries
------------------------------------------------------------

/- A list written after another one makes their merge. -/
theorem Element.makes_merge
    {element : Element}
    {first second : List element.Value}
    {name : String}
    {before entry after : Update.Entry}
    (hFirst : element.ListStoredAs first name before)
    (hSecond : element.ListStoredAs second name entry)
    (hMerge :
      element.ListStoredAs (element.merge first second) name
        after) :
    entry.Makes before.fresh after.fresh := by
  unfold merge at hMerge
  by_cases hShape : element.shape = .byte
  · rw [if_pos hShape] at hMerge
    exact Update.Entry.makes_of_registers
      (hFirst.register hShape) (hSecond.register hShape)
      (hMerge.register hShape)
  · rw [if_neg hShape] at hMerge
    rcases hFirst.exists_members hShape
      with ⟨members, hMembers, rfl⟩
    rcases hSecond.exists_members hShape
      with ⟨others, hOthers, rfl⟩
    rcases hMerge.exists_members hShape
      with ⟨all, hAll, rfl⟩
    have hBoth :
        (first ++ second).mapM (element.toMember name) =
          .ok (members ++ others) :=
      mapM_eq_ok_iff.mpr
        (List.rel_append (mapM_eq_ok_iff.mp hMembers)
          (mapM_eq_ok_iff.mp hOthers))
    cases hBoth.symm.trans hAll
    exact Update.Entry.makes_added members others

/- The map that is written under a name is well-formed. -/
theorem Update.WellFormed.of_entry
    {update child : Update}
    (hWell : update.WellFormed)
    {name : String}
    (hChild : (update.entry name).map = some child) :
    child.WellFormed := by
  have hEq : update.child name = child :=
    congrArg (·.getD .empty) hChild
  exact hEq ▸ hWell.child name

/-
  A table written after another one makes their merge, if
  the values of a key that both have make theirs.
-/
theorem Table.IsWritten.apply_merge
    {sorted : Bool}
    {key : KeyType}
    {type : FieldType}
    {first second : Table sorted key type.Value}
    {before update after : Update}
    (hFirst : first.IsWritten before)
    (hNames : type.HasDistinctNames)
    (hSecond : second.IsWritten update)
    (hMerge :
      (mergeWith type.merge first second).IsWritten after)
    (hBoth :
      ∀ k item other,
        first.find? k = some item →
        second.find? k = some other →
        type.WrittenAs (type.merge item other)
          (key.written k) (after.entry (key.written k)) →
        (update.entry (key.written k)).Makes
          (before.entry (key.written k)).fresh
          (after.entry (key.written k)).fresh) :
    update.apply before.fresh = .ok after.fresh := by
  apply hFirst.apply_fresh hSecond hMerge
  intro k
  have hFind := find?_mergeWith type.merge first second k
  cases hItem : first.find? k with
  | none =>
      rw [hFirst.entry_of_find?_eq_none hItem]
      cases hOther : second.find? k with
      | none =>
          rw [hItem, hOther] at hFind
          rw [hSecond.entry_of_find?_eq_none hOther,
            hMerge.entry_of_find?_eq_none hFind]
          exact Update.Entry.makes_none _
      | some other =>
          rw [hItem, hOther] at hFind
          rw [(hMerge.values k other hFind).unique hNames
            (hSecond.values k other hOther)]
          exact Update.Entry.makes_fresh
            fun _ hChild => hSecond.wellFormed.of_entry hChild
  | some item =>
      cases hOther : second.find? k with
      | none =>
          rw [hItem, hOther] at hFind
          rw [hSecond.entry_of_find?_eq_none hOther,
            (hMerge.values k item hFind).unique hNames
              (hFirst.values k item hItem)]
          exact Update.Entry.makes_none _
      | some other =>
          rw [hItem, hOther] at hFind
          exact hBoth k item other hItem hOther
            (hMerge.values k _ hFind)

------------------------------------------------------------
-- Documents
------------------------------------------------------------

mutual
/- A value written after another one makes their merge. -/
theorem FieldType.makes_merge :
    (type : FieldType) → type.HasNoSlots →
      type.HasDistinctNames →
      {first second : type.Value} → {name : String} →
      {before entry after : Update.Entry} →
      type.WrittenAs first name before →
      type.WrittenAs second name entry →
      type.WrittenAs (type.merge first second) name after →
      entry.Makes before.fresh after.fresh
  | .int _, _, hNames, _, _, _, _, _, _, hFirst, hSecond,
    hMerge =>
      Update.Entry.makes_of_registers
        (hFirst.storedAs hNames) (hSecond.storedAs hNames)
        (hMerge.storedAs hNames)
  | .text, _, hNames, _, _, _, _, _, _, hFirst, hSecond,
    hMerge =>
      Update.Entry.makes_of_registers
        (hFirst.storedAs hNames) (hSecond.storedAs hNames)
        (hMerge.storedAs hNames)
  | .bool, _, hNames, _, _, _, _, _, _, hFirst, hSecond,
    hMerge =>
      Update.Entry.makes_of_flags
        (hFirst.storedAs hNames) (hSecond.storedAs hNames)
        (hMerge.storedAs hNames)
  | .timestamp, _, hNames, _, _, _, _, _, _, hFirst, hSecond,
    hMerge =>
      Update.Entry.makes_of_registers
        (hFirst.storedAs hNames) (hSecond.storedAs hNames)
        (hMerge.storedAs hNames)
  | .float32, _, hNames, _, _, _, _, _, _, hFirst, _, _ =>
      (hFirst.storedAs hNames).elim
  | .float64, _, hNames, _, _, _, _, _, _, hFirst, _, _ =>
      (hFirst.storedAs hNames).elim
  | .char, _, hNames, _, _, _, _, _, _, hFirst, _, _ =>
      (hFirst.storedAs hNames).elim
  | .slot _, hSlots, _, _, _, _, _, _, _, _, _, _ =>
      hSlots.elim
  | .list _, _, hNames, _, _, _, _, _, _, hFirst, hSecond,
    hMerge =>
      Element.makes_merge (hFirst.storedAs hNames)
        (hSecond.storedAs hNames) (hMerge.storedAs hNames)
  | .array _ _, _, hNames, _, _, _, _, _, _, hFirst, hSecond,
    hMerge =>
      Update.Entry.makes_of_registers
        (hFirst.storedAs hNames).2
        (hSecond.storedAs hNames).2
        (hMerge.storedAs hNames).2
  | .document schema, hSlots, hNames, _, _, _, _, _, _,
    hFirst, hSecond, hMerge => by
      rcases hFirst.exists_document hNames
        with ⟨_, hBefore, rfl⟩
      rcases hSecond.exists_document hNames
        with ⟨_, hUpdate, rfl⟩
      rcases hMerge.exists_document hNames
        with ⟨_, hAfter, rfl⟩
      apply Update.Entry.makes_ofMap
      apply hBefore.apply_fresh hUpdate hAfter
      exact schema.makes_merge hSlots hNames hBefore.fields
        hUpdate.fields hAfter.fields
  | .table _ _ type, hSlots, hNames, _, _, _, _, _, _,
    hFirst, hSecond, hMerge => by
      rcases hFirst.exists_table hNames
        with ⟨_, hBefore, rfl⟩
      rcases hSecond.exists_table hNames
        with ⟨_, hUpdate, rfl⟩
      rcases hMerge.exists_table hNames
        with ⟨_, hAfter, rfl⟩
      apply Update.Entry.makes_ofMap
      apply hBefore.apply_merge hNames hUpdate hAfter
      intro k item other hItem hOther hBoth
      exact type.makes_merge hSlots hNames
        (hBefore.values k item hItem)
        (hUpdate.values k other hOther) hBoth

/- Fields written after others make their merges. -/
theorem Schema.makes_merge :
    (schema : Schema) → schema.HasNoSlots →
      schema.HasDistinctNames →
      {first second : schema.Document} →
      {before update after : Update} →
      schema.WrittenIn first before →
      schema.WrittenIn second update →
      schema.WrittenIn (schema.merge first second) after →
      ∀ name ∈ schema.names,
        (update.entry name).Makes (before.entry name).fresh
          (after.entry name).fresh
  | .nil, _, _, _, _, _, _, _, _, _, _, name, hName =>
      absurd hName List.not_mem_nil
  | .stored _ name type rest, hSlots, hNames, (_, _), (_, _),
    _, _, _, hFirst, hSecond, hMerge, other, hOther => by
      rcases List.mem_cons.mp hOther with hEq | hRest
      · subst hEq
        exact type.makes_merge hSlots.1 hNames.2.1 hFirst.1
          hSecond.1 hMerge.1
      · exact rest.makes_merge hSlots.2 hNames.2.2 hFirst.2
          hSecond.2 hMerge.2 other hRest
  | .skipped _ _ rest, hSlots, hNames, (_, _), (_, _), _, _,
    _, hFirst, hSecond, hMerge, other, hOther =>
      rest.makes_merge hSlots hNames hFirst hSecond hMerge
        other hOther
  | .context _ rest, hSlots, hNames, (_, _), (_, _), _, _,
    _, hFirst, hSecond, hMerge, other, hOther =>
      rest.makes_merge hSlots hNames hFirst hSecond hMerge
        other hOther
end

namespace Schema

variable {schema : Schema}

/-
  Two documents of a storable schema without slots can be
  stored at the same path of an empty map one after the
  other.  What is there can be read if and only if the points
  in time of their merge are regular.  Then it is read as the
  merge, as far as documents can be restored: the items of
  sets in order and each once, but without keys of which no
  item is stored.
-/
theorem merged_by_storing_both
    (hStorable : schema.IsStorable)
    (hNames : schema.HasDistinctNames)
    (hSlots : schema.HasNoSlots)
    (first second : schema.Document)
    (root : Path)
    (context : Bytes) :
    ∃ encoded encoded' before after,
      schema.encodeDocument first root = .ok encoded ∧
      encoded.update.apply .empty = .ok before ∧
      schema.encodeDocument second root = .ok encoded' ∧
      encoded'.update.apply before = .ok after ∧
      let merged := schema.merge first second
      let read :=
        schema.decodeDocument after context root
          schema.default
      (read.1 = .ok () ↔ schema.TimesRegular merged) ∧
      (schema.TimesRegular merged →
        schema.Restored root context schema.default merged
          read.2) := by
  rcases exists_encodeDocument hStorable hNames first root
    with ⟨encoded, hEncoded⟩
  rcases exists_encodeDocument hStorable hNames second root
    with ⟨encoded', hEncoded'⟩
  rcases exists_encodeDocument hStorable hNames
    (schema.merge first second) root
    with ⟨whole, hWhole⟩
  rcases exists_isWritten hNames hEncoded
    with ⟨inner, hFirst, hUpdate⟩
  rcases exists_isWritten hNames hEncoded'
    with ⟨inner', hSecond, hUpdate'⟩
  rcases exists_isWritten hNames hWhole
    with ⟨both, hMerge, _⟩
  have hStored :=
    schema.storedIn_of_writtenIn hNames hMerge.fields
  refine ⟨encoded, encoded',
    (inner.within root.segments).fresh,
    (both.within root.segments).fresh, hEncoded, ?_,
    hEncoded', ?_, ?_⟩
  · rw [hUpdate]
    exact Update.apply_empty _
      (hFirst.wellFormed.within root.segments)
  · rw [hUpdate']
    apply Update.apply_fresh_within
    apply hFirst.apply_fresh hSecond hMerge
    exact schema.makes_merge hSlots hNames hFirst.fields
      hSecond.fields hMerge.fields
  · intro merged
    rw [decodeDocument_fresh_within,
      ← hStorable.isReadable_iff merged]
    exact ⟨decode_ok_iff_isReadable hStored root context _,
      fun hReadable =>
        restored_of_isReadable hStored hReadable root context
          _⟩

/- Two documents with sets, a document and a table merge. -/
theorem merged_by_storing_both_order :
    let address : Schema :=
      .stored "city" "city" .text
        (.stored "since" "since" .timestamp .nil)
    let order : Schema :=
      .stored "paid" "paid" .bool
        (.stored "labels" "labels" (.list (.int .i16))
          (.stored "to" "to" (.document address)
            (.stored "lines" "lines"
              (.table false .text (.list .text))
              (.skipped "note" .char
                (.context "version" .nil)))))
    let none : Table false .text (List String) := Table.empty
    let left := (none.insert "a" ["x"]).insert "b" []
    let right := (none.insert "a" ["w", "x"]).insert "c" []
    let leap : Timestamp :=
      ⟨0, 1500000000, by decide, by decide⟩
    let first : order.Document :=
      (false, [Integer.zero], ("Oslo", leap, ()), left, 'n',
        [1], ())
    let second : order.Document :=
      (true, [], ("Rome", Timestamp.epoch, ()), right, 'm',
        [], ())
    let root := (Path.root ⟨"shop", "maps", "7"⟩).child "order"
    order.IsStorable ∧ order.HasDistinctNames ∧
    order.HasNoSlots ∧
    order.TimesRegular (order.merge first second) ∧
    ∃ encoded encoded' before after,
      order.encodeDocument first root = .ok encoded ∧
      encoded.update.apply .empty = .ok before ∧
      order.encodeDocument second root = .ok encoded' ∧
      encoded'.update.apply before = .ok after ∧
      let read :=
        order.decodeDocument after [2] root order.default
      read.1 = .ok () ∧
      order.Restored root [2] order.default
        (order.merge first second) read.2 := by
  intro address order none left right leap first second root
  have hStorable : order.IsStorable :=
    ⟨trivial, trivial, ⟨trivial, trivial, trivial⟩, trivial,
      trivial⟩
  have hNames : order.HasDistinctNames :=
    ⟨by decide, trivial, by decide, trivial, by decide,
      ⟨by decide, trivial, List.not_mem_nil, trivial,
        trivial⟩,
      List.not_mem_nil, trivial, trivial⟩
  have hSlots : order.HasNoSlots :=
    ⟨trivial, trivial, ⟨trivial, trivial, trivial⟩, trivial,
      trivial⟩
  have hEpoch : Timestamp.epoch.IsRegular := by
    decide
  have hTimes :
      order.TimesRegular (order.merge first second) :=
    ⟨trivial, trivial, ⟨trivial, hEpoch, trivial⟩,
      fun _ _ => trivial, trivial⟩
  refine ⟨hStorable, hNames, hSlots, hTimes, ?_⟩
  rcases merged_by_storing_both hStorable hNames hSlots first
    second root [2]
    with ⟨encoded, encoded', before, after, hFirst, hBefore,
      hSecond, hAfter, hRead, hRestored⟩
  exact ⟨encoded, encoded', before, after, hFirst, hBefore,
    hSecond, hAfter, hRead.mpr hTimes, hRestored hTimes⟩

/-
  What was stored cannot be read any more once a leap second
  is written over it where no minute ends.
-/
theorem leap_second_unreadable_after_storing_both :
    let clock : Schema := .stored "at" "at" .timestamp .nil
    let leap : Timestamp :=
      ⟨0, 1500000000, by decide, by decide⟩
    let root := Path.root ⟨"b", "t", "k"⟩
    clock.IsStorable ∧ clock.HasDistinctNames ∧
    clock.HasNoSlots ∧
    ∃ encoded encoded' before after,
      clock.encodeDocument (Timestamp.epoch, ()) root =
        .ok encoded ∧
      encoded.update.apply .empty = .ok before ∧
      clock.encodeDocument (leap, ()) root = .ok encoded' ∧
      encoded'.update.apply before = .ok after ∧
      (clock.decodeDocument after [] root clock.default).1 =
        .error (.invalidTimestamp "at" .outOfRange) := by
  intro clock leap root
  have hNames : clock.HasDistinctNames :=
    ⟨List.not_mem_nil, trivial, trivial⟩
  have hLeap : ¬leap.IsRegular := by
    decide
  refine ⟨⟨trivial, trivial⟩, hNames, ⟨trivial, trivial⟩, _,
    _, _, _, rfl, rfl, rfl, rfl, ?_⟩
  exact congrArg Prod.fst
    (decode_stored_of_error
      (FieldType.decode_of_not_isRegular rfl hLeap _) _)

end Schema

end CrdtDoc
