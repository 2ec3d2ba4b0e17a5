import CrdtDoc.Proofs.OrderedWriting
import CrdtDoc.Proofs.StoredReading
import CrdtDoc.Proofs.UpdateAtPath

/-
  This file shows what becomes of a document that is stored
  at a path of an empty map, and read there.

  Every document of a storable schema is stored, and comes
  back as far as documents can be restored, unless it has a
  leap second where no minute ends.  Of any other document
  that is stored, nothing can be read either if one of its
  tables has values without a kind, even if it is empty.

  Main declarations:
    * `Update.at?_fresh_within`
    * `Schema.exists_map_of_encodeDocument`
    * `Schema.restored_of_isStorable`
    * `Schema.decodeDocument_ok_iff_isReadable`
-/

namespace CrdtDoc

------------------------------------------------------------
-- Paths
------------------------------------------------------------

/- What is made of an update within a map is found in it. -/
theorem Update.map?_fresh_within
    (inner : Update)
    (name : String)
    (rest : List String) :
    (inner.within (name :: rest)).fresh.map? name =
      some (inner.within rest).fresh := by
  apply CrdtMap.map?_of_entry
  rw [within, entry_fresh,
    (replaces_setChild (entry_empty name)
      (inner.within rest)).entry_eq]

/- What is made of an update at a path is found there. -/
theorem Update.at?_fresh_within
    (inner : Update)
    (path : List String) :
    (inner.within path).fresh.at? path =
      some inner.fresh := by
  induction path with
  | nil => rfl
  | cons name rest ih =>
      rw [CrdtMap.at?, map?_fresh_within]
      exact ih

------------------------------------------------------------
-- Storable Types
------------------------------------------------------------

/- The values of a storable type have a kind. -/
theorem FieldType.IsStorable.kind_ne
    {type : FieldType}
    (hStorable : type.IsStorable)
    (kind : String) :
    type.kind ≠ .unsupported kind := by
  intro hKind
  cases type with
  | float32 => exact hStorable
  | float64 => exact hStorable
  | char => exact hStorable
  | slot handle => cases handle <;> cases hKind
  | list element =>
      have hShape := Element.IsStorable.shape_ne hStorable
      change listKind element = _ at hKind
      unfold listKind at hKind
      split at hKind
      · cases hKind
      · cases hKind
      · cases hKind
      · rename_i hUnsupported
        exact hShape hUnsupported
  | array element length =>
      have hBytes : length = 0 ∨ element.shape = .byte :=
        hStorable
      change arrayKind element length = _ at hKind
      rw [arrayKind, if_pos hBytes] at hKind
      cases hKind
  | _ => cases hKind

mutual
/- A value of a storable type needs regular times only. -/
theorem FieldType.IsStorable.isReadable_iff :
    {type : FieldType} → type.IsStorable →
      (value : type.Value) →
      (type.IsReadable value ↔ type.TimesRegular value)
  | .int _, _, _ | .text, _, _ | .bool, _, _
  | .timestamp, _, _ | .slot _, _, _ | .list _, _, _
  | .array _ _, _, _ => Iff.rfl
  | .float32, hStorable, _ | .float64, hStorable, _
  | .char, hStorable, _ => hStorable.elim
  | .document _, hStorable, document =>
      Schema.IsStorable.isReadable_iff hStorable document
  | .table _ _ value, hStorable, table => by
      have hValue : value.IsStorable := hStorable
      constructor
      · rintro ⟨_, hItems⟩ item hItem
        exact (hValue.isReadable_iff item.2).mp
          (hItems item hItem)
      · intro hItems
        refine ⟨hValue.kind_ne, fun item hItem => ?_⟩
        exact (hValue.isReadable_iff item.2).mpr
          (hItems item hItem)

/- A document of such a schema needs regular times only. -/
theorem Schema.IsStorable.isReadable_iff :
    {schema : Schema} → schema.IsStorable →
      (document : schema.Document) →
      (schema.IsReadable document ↔
        schema.TimesRegular document)
  | .nil, _, _ => Iff.rfl
  | .stored _ _ _ _, hStorable, (value, values) =>
      and_congr (hStorable.1.isReadable_iff value)
        (hStorable.2.isReadable_iff values)
  | .skipped _ _ rest, hStorable, (_, values) =>
      have hRest : rest.IsStorable := hStorable
      hRest.isReadable_iff values
  | .context _ rest, hStorable, (_, values) =>
      have hRest : rest.IsStorable := hStorable
      hRest.isReadable_iff values
end

------------------------------------------------------------
-- Documents
------------------------------------------------------------

namespace Schema

variable {schema : Schema} {document : schema.Document}
variable {root : Path} {encoded : Encoded}

/-
  A document stored at a path of an empty map is found in
  its stored form when it is read there.
-/
theorem exists_map_of_encodeDocument
    (hNames : schema.HasDistinctNames)
    (hEncode :
      schema.encodeDocument document root = .ok encoded) :
    ∃ map inner,
      encoded.update.apply .empty = .ok map ∧
      schema.StoredIn document inner ∧
      ∀ context old,
        schema.decodeDocument map context root old =
          schema.decode ⟨inner.fresh, root, context⟩ old := by
  rcases eq_within_of_encodeDocument hEncode
    with ⟨inner, hInner, hUpdate⟩
  have hInnerWell : inner.WellFormed :=
    schema.wellFormed_of_encode Update.wellFormed_empty
      hInner
  have hApply :
      encoded.update.apply .empty =
        .ok encoded.update.fresh := by
    rw [hUpdate]
    exact Update.apply_empty _
      (hInnerWell.within root.segments)
  have hStored :=
    schema.storedIn_of_encode hNames
      (fun name _ => Update.entry_empty name) hInner
  refine
    ⟨encoded.update.fresh, inner, hApply, hStored.1, ?_⟩
  intro context old
  rw [decodeDocument, hUpdate, Update.at?_fresh_within]
  rfl

/- A document of a storable schema is stored at any path. -/
theorem exists_encodeDocument
    (hStorable : schema.IsStorable)
    (hNames : schema.HasDistinctNames)
    (document : schema.Document)
    (root : Path) :
    ∃ encoded,
      schema.encodeDocument document root = .ok encoded := by
  rcases schema.exists_encode hStorable hNames document
    (fun name _ => Update.entry_empty name)
    with ⟨inner, hInner⟩
  refine
    ⟨⟨inner.within root.segments,
      schema.causalContext document⟩, ?_⟩
  rw [encodeDocument_eq, hInner]
  rfl

/-
  Every document of a storable schema is stored at any path
  of an empty map.  It can be read there if and only if its
  points in time are regular, and then it is restored.
-/
theorem restored_of_isStorable
    (hStorable : schema.IsStorable)
    (hNames : schema.HasDistinctNames)
    (document : schema.Document)
    (root : Path)
    (context : Bytes) :
    ∃ encoded map,
      schema.encodeDocument document root = .ok encoded ∧
      encoded.update.apply .empty = .ok map ∧
      let read :=
        schema.decodeDocument map context root schema.default
      (read.1 = .ok () ↔ schema.TimesRegular document) ∧
      (schema.TimesRegular document →
        schema.Restored root context schema.default document
          read.2) := by
  rcases exists_encodeDocument hStorable hNames document root
    with ⟨encoded, hEncoded⟩
  rcases exists_map_of_encodeDocument hNames hEncoded
    with ⟨map, inner, hMap, hStored, hDecode⟩
  refine ⟨encoded, map, hEncoded, hMap, ?_⟩
  rw [hDecode, ← hStorable.isReadable_iff document]
  exact ⟨decode_ok_iff_isReadable hStored root context _,
    fun hReadable =>
      restored_of_isReadable hStored hReadable root context _⟩

/- A document of a time, a list and a table is restored. -/
theorem restored_of_isStorable_order :
    let item : Schema :=
      .stored "stock" "stock" (.slot .counter)
        (.skipped "note" .float64 (.context "version" .nil))
    let order : Schema :=
      .stored "at" "at" .timestamp
        (.stored "tags" "tags" (.list .text)
          (.stored "items" "lines"
            (.table true (.int .u16) (.document item)) .nil))
    let items : Table true (.int .u16) item.Document :=
      Table.empty.insert (Integer.zero : Integer .u16)
        (none, FieldType.default .float64, [], ())
    let leap : Timestamp :=
      ⟨59, 1500000000, by decide, by decide⟩
    let document : order.Document :=
      (leap, ["b", "a", "b"], items, ())
    let root := (Path.root ⟨"shop", "maps", "7"⟩).child "order"
    order.IsStorable ∧ order.HasDistinctNames ∧
    order.TimesRegular document ∧
    ∃ encoded map,
      order.encodeDocument document root = .ok encoded ∧
      encoded.update.apply .empty = .ok map ∧
      let read :=
        order.decodeDocument map [1] root order.default
      read.1 = .ok () ∧
      order.Restored root [1] order.default document
        read.2 := by
  intro item order items leap document root
  have hStorable : order.IsStorable :=
    ⟨trivial, trivial, ⟨trivial, trivial⟩, trivial⟩
  have hNames : order.HasDistinctNames :=
    ⟨by decide, trivial, by decide, trivial,
      List.not_mem_nil, ⟨List.not_mem_nil, trivial, trivial⟩,
      trivial⟩
  have hLeap : leap.IsRegular := by
    decide
  have hTimes : order.TimesRegular document :=
    ⟨hLeap, trivial, fun _ _ => ⟨trivial, trivial⟩, trivial⟩
  refine ⟨hStorable, hNames, hTimes, ?_⟩
  rcases restored_of_isStorable hStorable hNames document root
    [1] with ⟨encoded, map, hEncoded, hMap, hRead, hRestored⟩
  exact ⟨encoded, map, hEncoded, hMap, hRead.mpr hTimes,
    hRestored hTimes⟩

/-
  A key whose value writes no entry is not restored, nor is a
  leap second where no minute ends.
-/
theorem key_or_leap_second_lost :
    let flags : FieldType := .table false .text (.slot .flag)
    let schema : Schema := .stored "m" "m" flags .nil
    let table : flags.Value :=
      ⟨[("a", none)], List.pairwise_singleton _ _⟩
    let clock : Schema := .stored "at" "at" .timestamp .nil
    let leap : Timestamp :=
      ⟨0, 1500000000, by decide, by decide⟩
    let root := Path.root ⟨"b", "t", "k"⟩
    schema.IsStorable ∧ schema.HasDistinctNames ∧
    Table.find? table "a" = some none ∧
    (∃ encoded map,
      schema.encodeDocument (table, ()) root = .ok encoded ∧
      encoded.update.apply .empty = .ok map ∧
      schema.decodeDocument map [] root schema.default =
        (.ok (), (Table.empty, ()))) ∧
    clock.IsStorable ∧ clock.HasDistinctNames ∧
    ∃ encoded map,
      clock.encodeDocument (leap, ()) root = .ok encoded ∧
      encoded.update.apply .empty = .ok map ∧
      clock.decodeDocument map [] root clock.default =
        (.error (.invalidTimestamp "at" .outOfRange),
          clock.default) := by
  intro flags schema table clock leap root
  have hStorable : schema.IsStorable := ⟨trivial, trivial⟩
  have hNames : schema.HasDistinctNames :=
    ⟨List.not_mem_nil, trivial, trivial⟩
  have hClockNames : clock.HasDistinctNames :=
    ⟨List.not_mem_nil, trivial, trivial⟩
  have hLeap : ¬leap.IsRegular := by
    decide
  refine ⟨hStorable, hNames, rfl, ⟨_, _, rfl, rfl, rfl⟩,
    ⟨trivial, trivial⟩, hClockNames, _, _, rfl, rfl, ?_⟩
  exact decode_stored_of_error
    (FieldType.decode_of_not_isRegular rfl hLeap _) _

/-
  A document that was stored can be read if and only if all
  of its tables have a kind of values and all of its points
  in time are regular.
-/
theorem decodeDocument_ok_iff_isReadable
    (hNames : schema.HasDistinctNames)
    (hEncode :
      schema.encodeDocument document root = .ok encoded) :
    ∃ map,
      encoded.update.apply .empty = .ok map ∧
      ∀ context old,
        (schema.decodeDocument map context root old).1 =
            .ok () ↔
          schema.IsReadable document := by
  rcases exists_map_of_encodeDocument hNames hEncode
    with ⟨map, inner, hMap, hStored, hDecode⟩
  refine ⟨map, hMap, ?_⟩
  intro context old
  rw [hDecode]
  exact decode_ok_iff_isReadable hStored root context old

/- An empty table within a table decides whether it is read. -/
theorem decodeDocument_ok_iff_isReadable_nested :
    let floats : FieldType := .table false .text .float32
    let schema : Schema :=
      .stored "m" "m" (.table false .text floats) .nil
    let table : (FieldType.table false .text floats).Value :=
      ⟨[("a", Table.empty)], List.pairwise_singleton _ _⟩
    let root := Path.root ⟨"b", "t", "k"⟩
    let update :=
      Update.empty.setChild "m"
        (Update.empty.setChild "a" .empty)
    schema.HasDistinctNames ∧
    schema.encodeDocument (table, ()) root =
      .ok ⟨update, []⟩ ∧
    ∃ map,
      update.apply .empty = .ok map ∧
      ∀ context old,
        (schema.decodeDocument map context root old).1 =
            .ok () ↔
          schema.IsReadable (table, ()) := by
  intro floats schema table root update
  have hNames : schema.HasDistinctNames :=
    ⟨List.not_mem_nil, trivial, trivial⟩
  have hEncode :
      schema.encodeDocument (table, ()) root =
        .ok ⟨update, []⟩ := by
    rfl
  exact ⟨hNames, hEncode,
    decodeDocument_ok_iff_isReadable hNames hEncode⟩

/- An empty table without a kind is stored, but not read. -/
theorem unreadable_after_encodeDocument :
    let floats : FieldType := .table false .text .float32
    let schema : Schema := .stored "m" "m" floats .nil
    let root := Path.root ⟨"b", "t", "k"⟩
    schema.HasDistinctNames ∧
    ∃ encoded map,
      schema.encodeDocument (Table.empty, ()) root =
        .ok encoded ∧
      encoded.update.apply .empty = .ok map ∧
      (schema.decodeDocument map [] root schema.default).1 =
        .error (.mapValue "m" "f32") := by
  intro floats schema root
  have hNames : schema.HasDistinctNames :=
    ⟨List.not_mem_nil, trivial, trivial⟩
  exact ⟨hNames, _, _, rfl, rfl, rfl⟩

end Schema

end CrdtDoc
