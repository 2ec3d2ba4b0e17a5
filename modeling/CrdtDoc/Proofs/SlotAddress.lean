import CrdtDoc.Proofs.HandleSending
import CrdtDoc.Proofs.RoundTrip
import CrdtDoc.Proofs.SlotBinding

/-
  This file shows that a slot that was read is where its
  document is stored: the handle it holds is of the entry
  that it was read from, and the document as a whole writes
  to that entry what the handle writes on its own.

  Key definitions include:
    * `PlacedSlot`
    * `Schema.Places`
    * `Schema.HasSlot`
    * `Schema.HasCanonicalKeys`
    * `PlacedSlot.IsLoaded`
    * `PlacedSlot.WritesAlike`

  Main declarations:
    * `Schema.isLoaded_of_decode`
    * `Schema.exists_entry_of_storedIn`
    * `Schema.addresses_of_decodeDocument`
-/

namespace CrdtDoc

------------------------------------------------------------
-- Placed Slots
------------------------------------------------------------

/-
  A slot of a document, with the names that lead to the map
  of its entry, and the name of the entry.
-/
structure PlacedSlot where
  kind : HandleKind
  slot : Slot kind
  segments : List String
  name : String

/- The slot, where its document is within a map. -/
def PlacedSlot.within
    (placed : PlacedSlot)
    (name : String) : PlacedSlot :=
  { placed with segments := name :: placed.segments }

mutual
/-
  The slots that are reached when a value is read under a
  name of a map, each in its place.
-/
def FieldType.Places :
    (type : FieldType) → type.Value → String → CrdtMap →
      PlacedSlot → Prop
  | .slot kind, slot, name, _, placed =>
      placed = ⟨kind, slot, [], name⟩
  | .document schema, document, name, map, placed =>
      ∃ child inner,
        map.map? name = some child ∧
        schema.Places document child inner ∧
        placed = inner.within name
  | .table _ key value, table, name, map, placed =>
      ∃ child inner,
        map.map? name = some child ∧
        (∃ item ∈ Table.entries table,
          value.Places item.2 (key.written item.1) child
            inner) ∧
        placed = inner.within name
  | _, _, _, _, _ => False

/- The slots that are reached in the stored fields. -/
def Schema.Places :
    (schema : Schema) → schema.Document → CrdtMap →
      PlacedSlot → Prop
  | .nil, _, _, _ => False
  | .stored _ name type rest, (value, values), map, placed =>
      type.Places value name map placed ∨
      rest.Places values map placed
  | .skipped _ _ rest, (_, values), map, placed =>
      rest.Places values map placed
  | .context _ rest, (_, values), map, placed =>
      rest.Places values map placed
end

mutual
/-
  The slots of a value that is written under a name, each in
  its place.  Those within tables are kept as they are when
  the value is written, and all others may be filled.
-/
def FieldType.HasSlot :
    (type : FieldType) → type.Value → String → SlotMode →
      PlacedSlot → Prop
  | .slot kind, slot, name, mode, placed =>
      mode = .filling ∧ placed = ⟨kind, slot, [], name⟩
  | .document schema, document, name, mode, placed =>
      ∃ inner,
        schema.HasSlot document mode inner ∧
        placed = inner.within name
  | .table _ key value, table, name, mode, placed =>
      mode = .keeping ∧
      ∃ inner,
        (∃ item ∈ Table.entries table,
          ∃ mode,
            value.HasSlot item.2 (key.written item.1) mode
              inner) ∧
        placed = inner.within name
  | _, _, _, _, _ => False

/- The slots of the stored fields of a document. -/
def Schema.HasSlot :
    (schema : Schema) → schema.Document → SlotMode →
      PlacedSlot → Prop
  | .nil, _, _, _ => False
  | .stored _ name type rest, (value, values), mode,
    placed =>
      type.HasSlot value name mode placed ∨
      rest.HasSlot values mode placed
  | .skipped _ _ rest, (_, values), mode, placed =>
      rest.HasSlot values mode placed
  | .context _ rest, (_, values), mode, placed =>
      rest.HasSlot values mode placed
end

mutual
/-
  The entries of all tables that are reached in a map are
  named as their keys are written.
-/
def FieldType.HasCanonicalKeys :
    FieldType → String → CrdtMap → Prop
  | .document schema, name, map =>
      ∀ child, map.map? name = some child →
        schema.HasCanonicalKeys child
  | .table _ key value, name, map =>
      ∀ child, map.map? name = some child →
        ∀ entry ∈ child.namesOf value.kind,
          (∃ k, key.written k = entry) ∧
          value.HasCanonicalKeys entry child
  | _, _, _ => True

/- The entries of the tables of all fields are so named. -/
def Schema.HasCanonicalKeys : Schema → CrdtMap → Prop
  | .nil, _ => True
  | .stored _ name type rest, map =>
      type.HasCanonicalKeys name map ∧
      rest.HasCanonicalKeys map
  | .skipped _ _ rest, map => rest.HasCanonicalKeys map
  | .context _ rest, map => rest.HasCanonicalKeys map
end

------------------------------------------------------------
-- Loaded Slots
------------------------------------------------------------

namespace PlacedSlot

/- The entry of a slot of a document at a path. -/
def binding
    (placed : PlacedSlot)
    (root : Path)
    (context : Bytes) : Binding :=
  ⟨⟨root.location, root.segments ++ placed.segments⟩,
    placed.name, context⟩

/- The slot holds the handle of its entry, as it stands. -/
def IsLoaded
    (placed : PlacedSlot)
    (source : Source) : Prop :=
  placed.slot =
    some (placed.kind.load
      (placed.binding source.path source.context)
      (source.map.reach placed.segments))

/- A slot loaded within a map is loaded within a larger one. -/
theorem IsLoaded.within
    {placed : PlacedSlot}
    {source child : Source}
    (hLoaded : placed.IsLoaded child)
    {name : String}
    (hChild : source.child? name = some child) :
    (placed.within name).IsLoaded source := by
  rcases Option.map_eq_some_iff.mp hChild
    with ⟨map, hMap, hSource⟩
  subst hSource
  have hReach :
      source.map.reach (name :: placed.segments) =
        map.reach placed.segments := by
    rw [CrdtMap.reach_cons, CrdtMap.child, hMap]
    rfl
  have hBinding :
      (placed.within name).binding source.path
          source.context =
        placed.binding (source.path.child name)
          source.context := by
    simp only [binding, PlacedSlot.within, Path.child,
      List.append_assoc, List.singleton_append]
  unfold IsLoaded
  rw [hBinding]
  refine hLoaded.trans ?_
  change _ = some (placed.kind.load _
    (source.map.reach (name :: placed.segments)))
  rw [hReach]

end PlacedSlot

/- An entry that must fit places no slot. -/
theorem FieldType.not_places_of_isStrictEntry
    {type : FieldType}
    (hStrict : type.IsStrictEntry)
    {value : type.Value}
    {name : String}
    {map : CrdtMap}
    {placed : PlacedSlot} :
    ¬type.Places value name map placed := by
  cases type with
  | int type => exact id
  | text => exact id
  | array element length => exact id
  | _ => exact hStrict.elim

mutual
/- Reading a value loads the slots that it reaches. -/
theorem FieldType.isLoaded_of_decode :
    (type : FieldType) → {name : String} →
      {source : Source} → {old new : type.Value} →
      type.decode name source old = (.ok (), new) →
      type.HasCanonicalKeys name source.map →
      {placed : PlacedSlot} →
      type.Places new name source.map placed →
      placed.IsLoaded source
  | .slot kind, name, source, _, _, hDecode, _, placed,
    hPlaces => by
      cases hDecode
      cases hPlaces
      unfold PlacedSlot.IsLoaded PlacedSlot.binding
      simp only [List.append_nil]
      rfl
  | .document schema, name, source, _, _, hDecode, hKeys, _,
    hPlaces => by
      rcases hPlaces with ⟨map, inner, hMap, hInner, rfl⟩
      have hChild :
          source.child? name =
            some ⟨map, source.path.child name,
              source.context⟩ := by
        rw [Source.child?, hMap]
        rfl
      rw [FieldType.decode, hChild] at hDecode
      exact (schema.isLoaded_of_decode hDecode
        (hKeys map hMap) hInner).within hChild
  | .table _ key value, name, source, _, _, hDecode, hKeys,
    _, hPlaces => by
      rcases hPlaces
        with ⟨map, inner, hMap, ⟨item, hItem, hInner⟩, rfl⟩
      have hChild :
          source.child? name =
            some ⟨map, source.path.child name,
              source.context⟩ := by
        rw [Source.child?, hMap]
        rfl
      rw [FieldType.decode, hChild] at hDecode
      have hTable := Reading.eq_of_replace hDecode
      rcases Source.readsEntry_of_find? hTable
        (Table.find?_eq_some_iff.mpr hItem)
        with ⟨entry, hEntry, hKey, hRead⟩
      rcases hKeys map hMap entry hEntry
        with ⟨⟨k, hWritten⟩, hEntryKeys⟩
      -- Only then is the key written as the entry is named.
      have hName : key.written item.1 = entry := by
        have hParse := KeyType.read_eq_ok_iff.mp hKey
        rw [← hWritten, key.parse?_written] at hParse
        rw [← hWritten, Option.some.inj hParse]
      rw [hName] at hInner
      by_cases hStrict : value.IsStrictEntry
      · exact absurd hInner
          (FieldType.not_places_of_isStrictEntry hStrict)
      · exact (value.isLoaded_of_decode
          (FieldType.decode_of_readEntry hStrict hRead)
          hEntryKeys hInner).within hChild
  | .int _, _, _, _, _, _, _, _, hPlaces => hPlaces.elim
  | .text, _, _, _, _, _, _, _, hPlaces => hPlaces.elim
  | .bool, _, _, _, _, _, _, _, hPlaces => hPlaces.elim
  | .timestamp, _, _, _, _, _, _, _, hPlaces => hPlaces.elim
  | .float32, _, _, _, _, _, _, _, hPlaces => hPlaces.elim
  | .float64, _, _, _, _, _, _, _, hPlaces => hPlaces.elim
  | .char, _, _, _, _, _, _, _, hPlaces => hPlaces.elim
  | .list _, _, _, _, _, _, _, _, hPlaces => hPlaces.elim
  | .array _ _, _, _, _, _, _, _, _, hPlaces => hPlaces.elim

/- Reading a document loads the slots that it reaches. -/
theorem Schema.isLoaded_of_decode :
    (schema : Schema) → {source : Source} →
      {old new : schema.Document} →
      schema.decode source old = (.ok (), new) →
      schema.HasCanonicalKeys source.map →
      {placed : PlacedSlot} →
      schema.Places new source.map placed →
      placed.IsLoaded source
  | .nil, _, _, _, _, _, _, hPlaces => hPlaces.elim
  | .stored _ _ type rest, _, _, _, hDecode, hKeys, _,
    hPlaces => by
      rcases Schema.decode_stored_eq_ok_iff.mp hDecode
        with ⟨hValue, hRest⟩
      rcases hPlaces with hPlaces | hPlaces
      · exact type.isLoaded_of_decode hValue hKeys.1 hPlaces
      · exact rest.isLoaded_of_decode hRest hKeys.2 hPlaces
  | .skipped _ _ rest, _, _, _, hDecode, hKeys, _, hPlaces =>
      rest.isLoaded_of_decode
        (Schema.decode_skipped_eq_ok_iff.mp hDecode).2 hKeys
        hPlaces
  | .context _ rest, _, _, _, hDecode, hKeys, _, hPlaces =>
      rest.isLoaded_of_decode
        (Schema.decode_context_eq_ok_iff.mp hDecode).2 hKeys
        hPlaces
end

------------------------------------------------------------
-- Written Slots
------------------------------------------------------------

mutual
/- What is reached when a value is read is a slot of it. -/
theorem FieldType.hasSlot_of_places :
    (type : FieldType) → {value : type.Value} →
      {name : String} → {map : CrdtMap} →
      {placed : PlacedSlot} →
      type.Places value name map placed →
      ∃ mode, type.HasSlot value name mode placed
  | .slot _, _, _, _, _, hPlaces =>
      ⟨.filling, rfl, hPlaces⟩
  | .document schema, _, _, _, _, hPlaces => by
      rcases hPlaces with ⟨map, inner, _, hInner, rfl⟩
      rcases schema.hasSlot_of_places hInner
        with ⟨mode, hSlot⟩
      exact ⟨mode, inner, hSlot, rfl⟩
  | .table _ _ value, _, _, _, _, hPlaces => by
      rcases hPlaces
        with ⟨map, inner, _, ⟨item, hItem, hInner⟩, rfl⟩
      exact ⟨.keeping, rfl, inner,
        ⟨item, hItem, value.hasSlot_of_places hInner⟩, rfl⟩
  | .int _, _, _, _, _, hPlaces => hPlaces.elim
  | .text, _, _, _, _, hPlaces => hPlaces.elim
  | .bool, _, _, _, _, hPlaces => hPlaces.elim
  | .timestamp, _, _, _, _, hPlaces => hPlaces.elim
  | .float32, _, _, _, _, hPlaces => hPlaces.elim
  | .float64, _, _, _, _, hPlaces => hPlaces.elim
  | .char, _, _, _, _, hPlaces => hPlaces.elim
  | .list _, _, _, _, _, hPlaces => hPlaces.elim
  | .array _ _, _, _, _, _, hPlaces => hPlaces.elim

/- What is reached in a document is a slot of it. -/
theorem Schema.hasSlot_of_places :
    (schema : Schema) → {document : schema.Document} →
      {map : CrdtMap} → {placed : PlacedSlot} →
      schema.Places document map placed →
      ∃ mode, schema.HasSlot document mode placed
  | .nil, _, _, _, hPlaces => hPlaces.elim
  | .stored _ _ type rest, (_, _), _, _, hPlaces => by
      rcases hPlaces with hPlaces | hPlaces
      · rcases type.hasSlot_of_places hPlaces
          with ⟨mode, hSlot⟩
        exact ⟨mode, Or.inl hSlot⟩
      · rcases rest.hasSlot_of_places hPlaces
          with ⟨mode, hSlot⟩
        exact ⟨mode, Or.inr hSlot⟩
  | .skipped _ _ rest, (_, _), _, _, hPlaces =>
      rest.hasSlot_of_places hPlaces
  | .context _ rest, (_, _), _, _, hPlaces =>
      rest.hasSlot_of_places hPlaces
end

mutual
/- The stored form of a value has the entries of its slots. -/
theorem FieldType.exists_entry_of_storedAs :
    (type : FieldType) → {value : type.Value} →
      {name : String} → {update : Update} →
      type.StoredAs value name (update.entry name) →
      {mode : SlotMode} → {placed : PlacedSlot} →
      type.HasSlot value name mode placed →
      ∃ node,
        update.at? placed.segments = some node ∧
        node.entry placed.name = Slot.written placed.slot
  | .slot kind, _, _, update, hStored, _, _, hSlot => by
      rcases hSlot with ⟨_, rfl⟩
      exact ⟨update, rfl, hStored⟩
  | .document schema, _, name, update, hStored, _, _,
    hSlot => by
      rcases hSlot with ⟨inner, hInner, rfl⟩
      rcases hStored with ⟨child, hChild, hEntry⟩
      have hMap : update.map? name = some child :=
        congrArg Update.Entry.map hEntry
      rcases schema.exists_entry_of_storedIn hChild hInner
        with ⟨node, hNode, hWritten⟩
      refine ⟨node, ?_, hWritten⟩
      rw [PlacedSlot.within, Update.at?, hMap]
      exact hNode
  | .table _ key value, _, name, update, hStored, _, _,
    hSlot => by
      rcases hSlot
        with ⟨_, inner, ⟨item, hItem, _, hInner⟩, rfl⟩
      rcases hStored with ⟨child, hChild, _, hEntry⟩
      have hMap : update.map? name = some child :=
        congrArg Update.Entry.map hEntry
      rcases value.exists_entry_of_storedAs
        (hChild item hItem) hInner
        with ⟨node, hNode, hWritten⟩
      refine ⟨node, ?_, hWritten⟩
      rw [PlacedSlot.within, Update.at?, hMap]
      exact hNode
  | .int _, _, _, _, _, _, _, hSlot => hSlot.elim
  | .text, _, _, _, _, _, _, hSlot => hSlot.elim
  | .bool, _, _, _, _, _, _, hSlot => hSlot.elim
  | .timestamp, _, _, _, _, _, _, hSlot => hSlot.elim
  | .float32, _, _, _, _, _, _, hSlot => hSlot.elim
  | .float64, _, _, _, _, _, _, hSlot => hSlot.elim
  | .char, _, _, _, _, _, _, hSlot => hSlot.elim
  | .list _, _, _, _, _, _, _, hSlot => hSlot.elim
  | .array _ _, _, _, _, _, _, _, hSlot => hSlot.elim

/- The stored form of a document has those of its slots. -/
theorem Schema.exists_entry_of_storedIn :
    (schema : Schema) → {document : schema.Document} →
      {update : Update} →
      schema.StoredIn document update →
      {mode : SlotMode} → {placed : PlacedSlot} →
      schema.HasSlot document mode placed →
      ∃ node,
        update.at? placed.segments = some node ∧
        node.entry placed.name = Slot.written placed.slot
  | .nil, _, _, _, _, _, hSlot => hSlot.elim
  | .stored _ _ type rest, (_, _), _, hStored, _, _,
    hSlot => by
      rcases hSlot with hSlot | hSlot
      · exact type.exists_entry_of_storedAs hStored.1 hSlot
      · exact rest.exists_entry_of_storedIn hStored.2 hSlot
  | .skipped _ _ rest, (_, _), _, hStored, _, _, hSlot =>
      rest.exists_entry_of_storedIn hStored hSlot
  | .context _ rest, (_, _), _, hStored, _, _, hSlot =>
      rest.exists_entry_of_storedIn hStored hSlot
end

------------------------------------------------------------
-- Documents
------------------------------------------------------------

/-
  A document's update writes to the entry of a slot what a
  handle has unsent, and the handle's own update does so too
  and writes nothing else.
-/
def PlacedSlot.WritesAlike
    (placed : PlacedSlot)
    (handle : placed.kind.Handle)
    (root : Path)
    (whole : Update) : Prop :=
  ∃ node own,
    whole.at? (root.segments ++ placed.segments) =
      some node ∧
    (placed.kind.writes handle placed.name).foldlM
        Update.Entry.write .none =
      .ok (node.entry placed.name) ∧
    (placed.kind.binding handle).update
        (placed.kind.writes handle placed.name) =
      .ok (own.within (root.segments ++ placed.segments)) ∧
    Update.Replaces placed.name (node.entry placed.name)
      .empty own

namespace Schema

variable {schema : Schema} {placed : PlacedSlot}
variable {root : Path}

/- A stored document has a slot's writes where it stands. -/
theorem writesAlike_of_encodeDocument
    (hNames : schema.HasDistinctNames)
    {document : schema.Document}
    {encoded : Encoded}
    (hEncode :
      schema.encodeDocument document root = .ok encoded)
    {map : CrdtMap}
    (hPlaces : schema.Places document map placed)
    {handle : placed.kind.Handle}
    (hSlot : placed.slot = some handle)
    {context : Bytes}
    (hBinding :
      placed.kind.binding handle =
        placed.binding root context) :
    placed.WritesAlike handle root encoded.update := by
  rcases eq_within_of_encodeDocument hEncode
    with ⟨inner, hInner, hWithin⟩
  rw [hWithin]
  have hStored :=
    schema.storedIn_of_encode hNames (fun _ _ => rfl) hInner
  rcases schema.hasSlot_of_places hPlaces with ⟨_, hHas⟩
  rcases schema.exists_entry_of_storedIn hStored.1 hHas
    with ⟨node, hNode, hEntry⟩
  rw [hSlot] at hEntry
  have hName :
      (placed.kind.binding handle).name = placed.name :=
    congrArg Binding.name hBinding
  rcases placed.kind.exists_sends handle with ⟨own, hSends⟩
  refine ⟨node, own, ?_, ?_, ?_, ?_⟩
  · rw [Update.at?_within_append]
    exact hNode
  · rw [hEntry]
    exact Slot.foldlM_writes (some handle) placed.name
  · rw [Binding.update, Update.modifyAt_empty, ← hName,
      hSends.writes, hBinding]
    rfl
  · rw [hEntry, ← hName]
    exact hSends.replaces

/-
  A slot that is read holds the handle of the entry that it
  was read from, as it stands there.  When the document is
  stored, as it can be if all of its types can, it writes to
  this entry what the handle writes there.
-/
theorem addresses_of_decodeDocument
    (hNames : schema.HasDistinctNames)
    {map : CrdtMap}
    {context : Bytes}
    {old new : schema.Document}
    (hDecode :
      schema.decodeDocument map context root old =
        (.ok (), new))
    (hKeys :
      schema.HasCanonicalKeys (map.reach root.segments))
    (hPlaces :
      schema.Places new (map.reach root.segments) placed) :
    ∃ handle,
      placed.slot = some handle ∧
      placed.kind.binding handle =
        placed.binding root context ∧
      handle =
        placed.kind.load (placed.binding root context)
          (map.reach (root.segments ++ placed.segments)) ∧
      (∀ encoded,
        schema.encodeDocument new root = .ok encoded →
        placed.WritesAlike handle root encoded.update) ∧
      (schema.IsStorable →
        ∃ encoded,
          schema.encodeDocument new root = .ok encoded) := by
  have hLoaded :
      placed.IsLoaded
        ⟨map.reach root.segments, root, context⟩ :=
    schema.isLoaded_of_decode hDecode hKeys hPlaces
  unfold PlacedSlot.IsLoaded at hLoaded
  rw [← CrdtMap.reach_append] at hLoaded
  have hBinding :=
    placed.kind.binding_load (placed.binding root context)
      (map.reach (root.segments ++ placed.segments))
  refine ⟨_, hLoaded, hBinding, rfl, ?_, ?_⟩
  · intro encoded hEncode
    exact writesAlike_of_encodeDocument hNames hEncode hPlaces
      hLoaded hBinding
  · intro hStorable
    exact exists_encodeDocument hStorable hNames new root

/- A slot of a table of a document within a document. -/
theorem addresses_of_decodeDocument_lines :
    let lines : FieldType :=
      .table true (.int .u16) (.slot .counter)
    let order : Schema := .stored "lines" "lines" lines .nil
    let schema : Schema :=
      .stored "order" "order" (.document order) .nil
    let root := (Path.root ⟨"b", "t", "k"⟩).child "shop"
    let counts : CrdtMap :=
      { CrdtMap.empty with
        counters := [("7", ⟨3, by decide, by decide⟩)] }
    let map : CrdtMap :=
      CrdtMap.empty.putAt counts ["shop", "order", "lines"]
    let binding : Binding :=
      ⟨(root.child "order").child "lines", "7", [1]⟩
    let slot : Slot .counter :=
      some (Counter.load binding counts)
    let table : lines.Value :=
      ⟨[(⟨7, by decide, by decide⟩, slot)],
        List.pairwise_singleton _ _⟩
    let new : schema.Document := ((table, ()), ())
    let placed : PlacedSlot :=
      ⟨.counter, slot, ["order", "lines"], "7"⟩
    schema.HasDistinctNames ∧
    schema.decodeDocument map [1] root schema.default =
      (.ok (), new) ∧
    schema.HasCanonicalKeys (map.reach root.segments) ∧
    schema.Places new (map.reach root.segments) placed ∧
    ∃ handle,
      placed.slot = some handle ∧
      placed.kind.binding handle = placed.binding root [1] ∧
      handle =
        placed.kind.load (placed.binding root [1])
          (map.reach (root.segments ++ placed.segments)) ∧
      (∀ encoded,
        schema.encodeDocument new root = .ok encoded →
        placed.WritesAlike handle root encoded.update) ∧
      (schema.IsStorable →
        ∃ encoded,
          schema.encodeDocument new root = .ok encoded) := by
  intro lines order schema root counts map binding slot table
    new placed
  have hNames : schema.HasDistinctNames :=
    ⟨List.not_mem_nil, ⟨List.not_mem_nil, trivial, trivial⟩,
      trivial⟩
  have hDecode :
      schema.decodeDocument map [1] root schema.default =
        (.ok (), new) := by
    rfl
  have hKeys :
      schema.HasCanonicalKeys (map.reach root.segments) := by
    refine ⟨?_, trivial⟩
    intro inner hInner
    cases hInner
    refine ⟨?_, trivial⟩
    intro child hChild
    cases hChild
    intro entry hEntry
    cases List.mem_singleton.mp hEntry
    exact ⟨⟨⟨7, by decide, by decide⟩, rfl⟩, trivial⟩
  have hPlaces :
      schema.Places new (map.reach root.segments) placed :=
    .inl ⟨_, _, rfl,
      .inl ⟨_, ⟨.counter, slot, [], "7"⟩, rfl,
        ⟨_, List.mem_singleton_self _, rfl⟩, rfl⟩, rfl⟩
  exact ⟨hNames, hDecode, hKeys, hPlaces,
    addresses_of_decodeDocument hNames hDecode hKeys hPlaces⟩

/-
  A document with a slot that was read cannot be stored, as
  a document within that was missing has a type that cannot.
-/
theorem unstorable_after_decodeDocument :
    let inner : Schema := .stored "x" "x" .float32 .nil
    let schema : Schema :=
      .stored "in" "in" (.document inner)
        (.stored "n" "n" (.slot .counter) .nil)
    let root := Path.root ⟨"b", "t", "k"⟩
    schema.HasDistinctNames ∧
    schema.HasCanonicalKeys
      (CrdtMap.empty.reach root.segments) ∧
    ∃ new placed,
      schema.decodeDocument .empty [1] root schema.default =
        (.ok (), new) ∧
      schema.Places new (CrdtMap.empty.reach root.segments)
        placed ∧
      schema.encodeDocument new root =
        .error (.codec (.unexpectedKind "x" "f32")) := by
  intro inner schema root
  have hNames : schema.HasDistinctNames :=
    ⟨by decide, ⟨List.not_mem_nil, trivial, trivial⟩,
      List.not_mem_nil, trivial, trivial⟩
  have hKeys :
      schema.HasCanonicalKeys
        (CrdtMap.empty.reach root.segments) := by
    refine ⟨?_, trivial, trivial⟩
    intro child hChild
    cases hChild
  exact ⟨hNames, hKeys, _, ⟨.counter, _, [], "n"⟩, rfl,
    .inr (.inl rfl), rfl⟩

end Schema

end CrdtDoc
