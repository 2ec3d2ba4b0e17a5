import CrdtDoc.Decode
import CrdtDoc.Proofs.IntegerText
import CrdtDoc.Proofs.Sequencing

/-
  This file shows what a table holds that was read from the
  entries of a map: under each key what was read from an
  entry whose name spells the key, and nothing else.

  Key definitions include:
    * `Source.ReadsEntry`

  Main declarations:
    * `Table.exists_foldlM_insert`
    * `Table.find?_foldlM_insert`
    * `Source.exists_table`
    * `Source.kind_ne_of_table`
    * `Source.exists_readsEntry`
    * `Source.readsEntry_of_find?`
-/

namespace CrdtDoc

------------------------------------------------------------
-- Rows of Insertions
------------------------------------------------------------

namespace Table

variable {ε : Type} {sorted : Bool} {key : KeyType} {α : Type}
variable {spell : String → Except ε key.Value}
variable {read : String → Except ε α}

/- A table is made if each of its entries can be read. -/
theorem exists_foldlM_insert
    {names : List String}
    (hNames :
      ∀ name ∈ names, ∃ k item,
        spell name = .ok k ∧ read name = .ok item)
    (before : Table sorted key α) :
    ∃ after,
      names.foldlM
          (fun table name => do
            let k ← spell name
            let item ← read name
            return table.insert k item)
          before = .ok after := by
  induction names generalizing before with
  | nil => exact ⟨before, rfl⟩
  | cons name rest ih =>
      rcases hNames name List.mem_cons_self
        with ⟨k, item, hKey, hItem⟩
      have hRest :
          ∀ other ∈ rest, ∃ k item,
            spell other = .ok k ∧ read other = .ok item := by
        intro other hOther
        exact hNames other (List.mem_cons_of_mem _ hOther)
      rcases ih hRest (before.insert k item)
        with ⟨after, hAfter⟩
      refine ⟨after, ?_⟩
      rw [List.foldlM_cons, hKey]
      simp only [hItem]
      exact hAfter

/-
  The table made has the keys of all entries, besides the
  old ones; and what it has under a key is old or was read
  from an entry that spells the key.
-/
theorem find?_foldlM_insert
    {names : List String}
    {before after : Table sorted key α}
    (hFold :
      names.foldlM
          (fun table name => do
            let k ← spell name
            let item ← read name
            return table.insert k item)
          before = .ok after) :
    (∀ name ∈ names, ∃ k item,
      spell name = .ok k ∧ read name = .ok item ∧
      after.find? k ≠ none) ∧
    (∀ k, before.find? k ≠ none → after.find? k ≠ none) ∧
    ∀ k item,
      after.find? k = some item →
        before.find? k = some item ∨
        ∃ name ∈ names,
          spell name = .ok k ∧ read name = .ok item := by
  induction names generalizing before with
  | nil =>
      cases hFold
      refine ⟨?_, fun _ hFound => hFound,
        fun _ _ hFind => Or.inl hFind⟩
      intro name hName
      cases hName
  | cons first rest ih =>
      rw [List.foldlM_cons] at hFold
      simp only [bind_eq_ok_iff] at hFold
      rcases hFold
        with ⟨middle, ⟨k, hKey, item, hItem, hMiddle⟩, hAfter⟩
      cases hMiddle
      rcases ih hAfter with ⟨hRest, hKept, hFound⟩
      refine ⟨?_, ?_, ?_⟩
      · intro name hName
        rcases List.mem_cons.mp hName with hEq | hName
        · subst hEq
          refine ⟨k, item, hKey, hItem, hKept k ?_⟩
          rw [find?_insert, if_pos rfl]
          exact Option.some_ne_none item
        · exact hRest name hName
      · intro other hOther
        apply hKept
        rw [find?_insert]
        split
        · exact Option.some_ne_none item
        · exact hOther
      · intro other found hFind
        rcases hFound other found hFind
          with hMiddle | ⟨name, hName, hRead⟩
        · rw [find?_insert] at hMiddle
          split at hMiddle
          · rename_i hEq
            cases hMiddle
            subst hEq
            exact Or.inr
              ⟨first, List.mem_cons_self, hKey, hItem⟩
          · exact Or.inl hMiddle
        · exact Or.inr
            ⟨name, List.mem_cons_of_mem _ hName, hRead⟩

end Table

------------------------------------------------------------
-- Tables of a Map
------------------------------------------------------------

/- A key is read from the names that spell it. -/
theorem KeyType.read_eq_ok_iff
    {key : KeyType}
    {field name : String}
    {k : key.Value} :
    key.read field name = .ok k ↔ key.parse? name = some k := by
  unfold read
  cases key.parse? name with
  | none => simp
  | some value => simp

/- A key is read from the name that it is stored under. -/
theorem KeyType.read_written
    (key : KeyType)
    (field : String)
    (k : key.Value) :
    key.read field (key.written k) = .ok k :=
  read_eq_ok_iff.mpr (key.parse?_written k)

namespace Source

variable {source : Source} {field : String} {sorted : Bool}
variable {key : KeyType} {value : FieldType}
variable {decode :
  String → value.Value → Reading value.Value}

/- A key and a value are read from the entry of a name. -/
def ReadsEntry
    (source : Source)
    (field : String)
    (key : KeyType)
    (value : FieldType)
    (decode :
      String → value.Value → Reading value.Value)
    (name : String)
    (k : key.Value)
    (item : value.Value) : Prop :=
  key.read field name = .ok k ∧
  value.readEntry name source (decode name) = .ok item

/- A table is read if its values are of a kind that is. -/
theorem table_eq_foldlM
    (hKind : ∀ kind, value.kind ≠ .unsupported kind) :
    source.table field sorted key value decode =
      (source.map.namesOf value.kind).foldlM
        (fun table name => do
          let k ← key.read field name
          let item ← value.readEntry name source (decode name)
          return table.insert k item)
        Table.empty := by
  unfold table
  split
  · rename_i kind hUnsupported
    exact absurd hUnsupported (hKind kind)
  · rfl

/- A table is read if each of its entries can be. -/
theorem exists_table
    (hKind : ∀ kind, value.kind ≠ .unsupported kind)
    (hNames :
      ∀ name ∈ source.map.namesOf value.kind, ∃ k item,
        source.ReadsEntry field key value decode name
          k item) :
    ∃ table,
      source.table field sorted key value decode =
        .ok table := by
  rw [table_eq_foldlM hKind]
  exact Table.exists_foldlM_insert hNames Table.empty

variable {table : Table sorted key value.Value}

/- What has no kind is in no table that was read. -/
theorem kind_ne_of_table
    (hTable :
      source.table field sorted key value decode = .ok table)
    (kind : String) :
    value.kind ≠ .unsupported kind := by
  intro hKind
  unfold Source.table at hTable
  rw [hKind] at hTable
  cases hTable

/- Each entry of the kind of a table is in the table. -/
theorem exists_readsEntry
    (hTable :
      source.table field sorted key value decode = .ok table)
    {name : String}
    (hName : name ∈ source.map.namesOf value.kind) :
    ∃ k item,
      source.ReadsEntry field key value decode name k item ∧
      table.find? k ≠ none := by
  have hKind := kind_ne_of_table hTable
  rw [table_eq_foldlM hKind] at hTable
  rcases (Table.find?_foldlM_insert hTable).1 name hName
    with ⟨k, item, hKey, hItem, hFind⟩
  exact ⟨k, item, ⟨hKey, hItem⟩, hFind⟩

/- What is in a table was read from an entry of its kind. -/
theorem readsEntry_of_find?
    (hTable :
      source.table field sorted key value decode = .ok table)
    {k : key.Value}
    {item : value.Value}
    (hFind : table.find? k = some item) :
    ∃ name ∈ source.map.namesOf value.kind,
      source.ReadsEntry field key value decode name
        k item := by
  have hKind := kind_ne_of_table hTable
  rw [table_eq_foldlM hKind] at hTable
  rcases (Table.find?_foldlM_insert hTable).2.2 k item hFind
    with hEmpty | hRead
  · cases hEmpty
  · exact hRead

end Source

end CrdtDoc
