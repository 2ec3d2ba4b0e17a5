import CrdtDoc.Proofs.EntryReading
import CrdtDoc.Proofs.TableReading
import Mathlib.Data.List.Dedup

/-
  This file shows how many entries a table has that was read
  from the entries of a map.

  An entry is read under the key that its name spells.  Two
  names may spell the same integer, as `5` and `+5` do, and
  then only the last of their entries is in the table.  With
  texts as keys, and with names as they are written, none is
  lost.

  Key definitions include:
    * `CrdtMap.keysOf`
    * `Table.Collects`

  Main declarations:
    * `Table.find?_of_last`
    * `Source.perm_keysOf_of_table`
    * `FieldType.collects_of_decode`
-/

namespace CrdtDoc

------------------------------------------------------------
-- Keys of Tables
------------------------------------------------------------

namespace Table

variable {sorted : Bool} {key : KeyType} {α : Type}

/- The keys of a table. -/
def keys
    (table : Table sorted key α) : List key.Value :=
  table.entries.map Prod.fst

/- No key is in a table twice. -/
theorem nodup_keys
    (table : Table sorted key α) :
    table.keys.Nodup :=
  List.pairwise_map.mpr table.pairwise_ne

/- The keys of a table are those that have a value. -/
theorem mem_keys_iff
    {table : Table sorted key α}
    {k : key.Value} :
    k ∈ table.keys ↔ table.find? k ≠ none := by
  rw [keys, List.mem_map, Option.ne_none_iff_exists']
  constructor
  · rintro ⟨entry, hEntry, rfl⟩
    exact ⟨entry.2, find?_eq_some_iff.mpr hEntry⟩
  · rintro ⟨item, hFind⟩
    exact ⟨(k, item), find?_eq_some_iff.mp hFind, rfl⟩

variable {ε : Type}
variable {spell : String → Except ε key.Value}
variable {read : String → Except ε α}

/- Under a key is what was put there last. -/
theorem find?_of_last
    {front back : List String}
    {name : String}
    {k : key.Value}
    {before after : Table sorted key α}
    (hFold :
      (front ++ name :: back).foldlM
          (fun table name => do
            let k ← spell name
            let item ← read name
            return table.insert k item)
          before = .ok after)
    (hKey : spell name = .ok k)
    (hLast : ∀ other ∈ back, spell other ≠ .ok k) :
    ∃ item,
      read name = .ok item ∧ after.find? k = some item := by
  rw [List.foldlM_append, bind_eq_ok_iff] at hFold
  rcases hFold with ⟨middle, _, hFold⟩
  rw [List.foldlM_cons] at hFold
  simp only [hKey, bind_eq_ok_iff] at hFold
  rcases hFold
    with ⟨next, ⟨_, hSame, item, hItem, hNext⟩, hBack⟩
  cases hSame
  cases hNext
  have hPut : (middle.insert k item).find? k = some item := by
    rw [find?_insert, if_pos rfl]
  rcases find?_foldlM_insert hBack with ⟨_, hKept, hFound⟩
  have hSome : after.find? k ≠ none := by
    apply hKept
    rw [hPut]
    exact Option.some_ne_none item
  rcases Option.ne_none_iff_exists'.mp hSome
    with ⟨found, hFind⟩
  rcases hFound k found hFind
    with hOld | ⟨other, hOther, hSpelled, _⟩
  · rw [hPut] at hOld
    exact ⟨item, hItem, hFind.trans hOld.symm⟩
  · exact absurd hSpelled (hLast other hOther)

end Table

------------------------------------------------------------
-- Keys of Entries
------------------------------------------------------------

namespace CrdtMap

/- The names of the entries of a kind are different. -/
theorem WellFormed.nodup_namesOf
    {map : CrdtMap}
    (hWell : map.WellFormed)
    (kind : FieldKind) :
    (map.namesOf kind).Nodup := by
  apply (hWell.ascending_namesOf kind).imp
  intro first second hLess hEq
  rw [hEq] at hLess
  exact String.lt_irrefl _ hLess

/- The keys that the entries of a kind spell. -/
def keysOf
    (map : CrdtMap)
    (key : KeyType)
    (kind : FieldKind) : List key.Value :=
  (map.namesOf kind).filterMap key.parse?

/- Entries that all spell a key spell as many as they are. -/
theorem length_keysOf
    {map : CrdtMap}
    {key : KeyType}
    {kind : FieldKind}
    (hSpelled :
      ∀ name ∈ map.namesOf kind, ∃ k,
        key.parse? name = some k) :
    (map.keysOf key kind).length =
      (map.namesOf kind).length := by
  apply List.filterMap_length_eq_length.mpr
  intro name hName
  exact Option.isSome_iff_exists.mpr (hSpelled name hName)

/- Names that keys are written as spell different keys. -/
theorem WellFormed.nodup_keysOf
    {map : CrdtMap}
    (hWell : map.WellFormed)
    {key : KeyType}
    {kind : FieldKind}
    (hWritten :
      ∀ name ∈ map.namesOf kind, ∃ k,
        key.written k = name) :
    (map.keysOf key kind).Nodup := by
  apply List.pairwise_filterMap.mpr
  apply (hWell.nodup_namesOf kind).imp_of_mem
  intro first second hFirst hSecond hNe k hKey k' hKey' hEq
  rcases hWritten first hFirst with ⟨a, rfl⟩
  rcases hWritten second hSecond with ⟨b, rfl⟩
  rw [key.parse?_written] at hKey hKey'
  apply hNe
  rw [Option.some.inj hKey, Option.some.inj hKey', hEq]

end CrdtMap

------------------------------------------------------------
-- Tables That Were Read
------------------------------------------------------------

/-
  A table has collected the entries of a map: one for each
  key that they spell, with what was read from the last one
  that spells it.  None is lost if and only if no two of
  them spell one key, as with names that are written.
-/
structure Table.Collects
    {sorted : Bool}
    {key : KeyType}
    {α : Type}
    (table : Table sorted key α)
    (map : CrdtMap)
    (kind : FieldKind)
    (Reads : String → α → Prop) : Prop where
  length_keysOf :
    (map.keysOf key kind).length = (map.namesOf kind).length
  length_eq :
    table.entries.length =
      (map.keysOf key kind).dedup.length
  length_eq_iff :
    table.entries.length = (map.namesOf kind).length ↔
      (map.keysOf key kind).Nodup
  length_of_written :
    (∀ name ∈ map.namesOf kind, ∃ k, key.written k = name) →
      table.entries.length = (map.namesOf kind).length
  find?_of_last :
    ∀ front name back k,
      map.namesOf kind = front ++ name :: back →
      key.parse? name = some k →
      (∀ other ∈ back, key.parse? other ≠ some k) →
        ∃ item, Reads name item ∧ table.find? k = some item

namespace Source

variable {source : Source} {field : String} {sorted : Bool}
variable {key : KeyType} {value : FieldType}
variable {decode :
  String → value.Value → Reading value.Value}
variable {table : Table sorted key value.Value}

/- The keys of a table are those that its entries spell. -/
theorem perm_keysOf_of_table
    (hTable :
      source.table field sorted key value decode =
        .ok table) :
    table.keys.Perm
      (source.map.keysOf key value.kind).dedup := by
  rw [List.perm_ext_iff_of_nodup table.nodup_keys
    (List.nodup_dedup _)]
  intro k
  rw [Table.mem_keys_iff, List.mem_dedup, CrdtMap.keysOf,
    List.mem_filterMap]
  constructor
  · intro hSome
    rcases Option.ne_none_iff_exists'.mp hSome
      with ⟨item, hFind⟩
    rcases readsEntry_of_find? hTable hFind
      with ⟨name, hName, hKey, _⟩
    exact ⟨name, hName, KeyType.read_eq_ok_iff.mp hKey⟩
  · rintro ⟨name, hName, hSpelled⟩
    rcases exists_readsEntry hTable hName
      with ⟨other, _, ⟨hKey, _⟩, hFind⟩
    have hSame := KeyType.read_eq_ok_iff.mp hKey
    rw [hSpelled] at hSame
    cases hSame
    exact hFind

/- A table that was read has collected the entries. -/
theorem collects_of_table
    (hWell : source.map.WellFormed)
    (hTable :
      source.table field sorted key value decode =
        .ok table) :
    table.Collects source.map value.kind fun name item =>
      value.readEntry name source (decode name) =
        .ok item := by
  have hSpelled :
      ∀ name ∈ source.map.namesOf value.kind, ∃ k,
        key.parse? name = some k := by
    intro name hName
    rcases exists_readsEntry hTable hName
      with ⟨k, _, ⟨hKey, _⟩, _⟩
    exact ⟨k, KeyType.read_eq_ok_iff.mp hKey⟩
  have hKeys := CrdtMap.length_keysOf hSpelled
  have hLength :
      table.entries.length =
        (source.map.keysOf key value.kind).dedup.length := by
    have hPerm := (perm_keysOf_of_table hTable).length_eq
    rwa [Table.keys, List.length_map] at hPerm
  have hIff :
      table.entries.length =
          (source.map.namesOf value.kind).length ↔
        (source.map.keysOf key value.kind).Nodup := by
    rw [hLength, ← hKeys, ← List.dedup_eq_self]
    exact ⟨(List.dedup_sublist _).eq_of_length,
      congrArg List.length⟩
  refine ⟨hKeys, hLength, hIff, ?_, ?_⟩
  · intro hWritten
    exact hIff.mpr (hWell.nodup_keysOf hWritten)
  · intro front name back k hNames hKey hLast
    rw [table_eq_foldlM (kind_ne_of_table hTable), hNames]
      at hTable
    apply Table.find?_of_last hTable
    · exact KeyType.read_eq_ok_iff.mpr hKey
    · intro other hOther hRead
      exact hLast other hOther
        (KeyType.read_eq_ok_iff.mp hRead)

end Source

namespace FieldType

/-
  A field with a table that could be read has collected the
  entries of the map that is stored under its name.
-/
theorem collects_of_decode
    {sorted : Bool}
    {key : KeyType}
    {value : FieldType}
    {name : String}
    {source child : Source}
    {old new : (FieldType.table sorted key value).Value}
    (hWell : child.map.WellFormed)
    (hChild : source.child? name = some child)
    (hDecode :
      FieldType.decode (.table sorted key value) name source
          old =
        (.ok (), new)) :
    Table.Collects new child.map value.kind fun entry item =>
      value.readEntry entry child (value.decode entry child) =
        .ok item := by
  rw [FieldType.decode, hChild] at hDecode
  exact Source.collects_of_table hWell
    (Reading.eq_of_replace hDecode)

/- Of the flags under `+5` and `5`, the second is left. -/
theorem collects_of_decode_five :
    let flags : CrdtMap :=
      { CrdtMap.empty with
        flags := [("+5", true), ("5", false), ("6", true)] }
    let source : Source :=
      ⟨{ CrdtMap.empty with maps := [("m", flags)] },
        Path.root ⟨"b", "t", "k"⟩, []⟩
    let child : Source :=
      ⟨flags, source.path.child "m", []⟩
    let key : KeyType := .int .i32
    let five : key.Value := ⟨5, by decide, by decide⟩
    let six : key.Value := ⟨6, by decide, by decide⟩
    let new : Table true key Bool :=
      (Table.empty.insert five false).insert six true
    child.map.WellFormed ∧
    source.child? "m" = some child ∧
    FieldType.decode (.table true key .bool) "m" source
        Table.empty =
      (.ok (), new) ∧
    new.Collects child.map .flag fun entry item =>
      FieldType.readEntry .bool entry child
          (FieldType.decode .bool entry child) =
        .ok item := by
  intro flags source child key five six new
  have hFlags : Entries.Ascending flags.flags := by
    unfold Entries.Ascending
    decide
  have hWell : child.map.WellFormed :=
    ⟨.nil, .nil, .nil, nofun, hFlags, .nil, trivial⟩
  have hDecode :
      FieldType.decode (.table true key .bool) "m"
          source Table.empty =
        (.ok (), new) := by
    rfl
  exact ⟨hWell, rfl, hDecode,
    collects_of_decode hWell rfl hDecode⟩

/- Two flags under one key are read as a table of one. -/
theorem entry_lost_on_decode :
    let flags : CrdtMap :=
      { CrdtMap.empty with
        flags := [("+5", true), ("5", false)] }
    let source : Source :=
      ⟨{ CrdtMap.empty with maps := [("m", flags)] },
        Path.root ⟨"b", "t", "k"⟩, []⟩
    let key : KeyType := .int .i32
    let five : key.Value := ⟨5, by decide, by decide⟩
    let new : Table true key Bool :=
      Table.empty.insert five false
    FieldType.decode (.table true key .bool) "m" source
        Table.empty =
      (.ok (), new) ∧
    new.entries.length ≠ (flags.namesOf .flag).length := by
  intro flags source key five new
  exact ⟨rfl, by decide⟩

end FieldType

end CrdtDoc
