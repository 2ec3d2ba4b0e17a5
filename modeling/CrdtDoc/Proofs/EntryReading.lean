import CrdtDoc.Decode
import CrdtDoc.Proofs.FreshMap

/-
  This file defines what a stored map holds under one name,
  over all its sections.  What is read under a name depends
  on nothing but the entry of that name, and a document is
  read field by field.

  Key definitions include:
    * `CrdtMap.Entry`
    * `CrdtMap.entry`
    * `CrdtMap.Entry.Has`

  Main declarations:
    * `CrdtMap.mem_namesOf_iff`
    * `CrdtMap.WellFormed.ascending_namesOf`
    * `FieldType.decode_of_readEntry`
    * `Schema.decode_stored_eq_ok_iff`
-/

namespace CrdtDoc

------------------------------------------------------------
-- Entries
------------------------------------------------------------

namespace CrdtMap

/- What is held under one name. -/
structure Entry where
  register : Option Bytes
  counter : Option (Integer .i64)
  set : Option Members
  flag : Option Bool
  map : Option CrdtMap

/- What a map holds under a name. -/
def entry
    (map : CrdtMap)
    (name : String) : Entry where
  register := map.register? name
  counter := map.counter? name
  set := map.set? name
  flag := map.flag? name
  map := map.map? name

namespace Entry

/- Nothing is held. -/
def none : Entry :=
  ⟨.none, .none, .none, .none, .none⟩

/- Is there something of a kind? -/
def Has
    (entry : Entry) : FieldKind → Prop
  | .register => entry.register ≠ .none
  | .counter => entry.counter ≠ .none
  | .set => entry.set ≠ .none
  | .flag => entry.flag ≠ .none
  | .map => entry.map ≠ .none
  | .unsupported _ => False

end Entry

/- The names of a section are those with an entry in it. -/
theorem mem_namesOf_iff
    {map : CrdtMap}
    {kind : FieldKind}
    {name : String} :
    name ∈ map.namesOf kind ↔ (map.entry name).Has kind := by
  have hNames :
      ∀ {α : Type} (entries : Entries α),
        name ∈ Entries.names entries ↔
          Entries.find? entries name ≠ .none := by
    intro α entries
    rw [Ne, Entries.find?_eq_none_iff, Decidable.not_not]
  cases kind with
  | register => exact hNames map.registers
  | counter => exact hNames map.counters
  | set => exact hNames map.sets
  | flag => exact hNames map.flags
  | map => exact hNames map.maps
  | unsupported name =>
      simp [namesOf, Entry.Has]

/- The names of a section of a well-formed map ascend. -/
theorem WellFormed.ascending_namesOf
    {map : CrdtMap}
    (hWell : map.WellFormed)
    (kind : FieldKind) :
    (map.namesOf kind).Pairwise (· < ·) := by
  have hNames :
      ∀ {α : Type} {entries : Entries α},
        entries.Ascending →
          entries.names.Pairwise (· < ·) :=
    fun hAscending => List.pairwise_map.mpr hAscending
  rcases map with ⟨registers, counters, sets, flags, maps⟩
  rcases hWell
    with ⟨hRegisters, hCounters, hSets, _, hFlags, hMaps, _⟩
  cases kind with
  | register => exact hNames hRegisters
  | counter => exact hNames hCounters
  | set => exact hNames hSets
  | flag => exact hNames hFlags
  | map => exact hNames hMaps
  | unsupported => exact List.Pairwise.nil

end CrdtMap

/- The entry that a fresh map has of what is written. -/
def Update.Entry.fresh
    (entry : Update.Entry) : CrdtMap.Entry where
  register := entry.register
  counter := entry.counter
  set := entry.adds.map (Members.insertAll [])
  flag := entry.flag
  map := entry.map.map Update.fresh

/- A fresh map shows what was written under each name. -/
theorem Update.entry_fresh
    (update : Update)
    (name : String) :
    update.fresh.entry name = (update.entry name).fresh := by
  rcases update
    with ⟨registers, counters, adds, removes, flags, maps⟩
  simp only [fresh, CrdtMap.entry, CrdtMap.register?,
    CrdtMap.counter?, CrdtMap.set?, CrdtMap.flag?,
    CrdtMap.map?, Entry.fresh, entry, register?, counter?,
    adds?, flag?, map?, freshAll_eq_map, Entries.find?_map]

------------------------------------------------------------
-- Results
------------------------------------------------------------

namespace Reading

variable {α : Type}

/- A result was read without an error. -/
theorem eq_of_result
    {reading : Reading α}
    {value : α}
    (hResult : reading.result = .ok value) :
    reading = (.ok (), value) := by
  rcases reading with ⟨outcome, new⟩
  cases outcome with
  | error error => cases hResult
  | ok _ =>
      cases hResult
      rfl

/- A value that replaced the old one is the one read. -/
theorem eq_of_replace
    {old new : α}
    {result : Except CodecError α}
    (hReplace : replace old result = (.ok (), new)) :
    result = .ok new := by
  cases result with
  | error error => cases hReplace
  | ok value =>
      cases hReplace
      rfl

end Reading

------------------------------------------------------------
-- Values
------------------------------------------------------------

/- The bytes under a name are those of its register. -/
theorem Source.bytes_eq_of_register
    {source : Source}
    {name : String}
    {bytes : Bytes}
    (hRegister : source.map.register? name = some bytes) :
    source.bytes name = bytes := by
  rw [Source.bytes, hRegister]
  rfl

/-
  Must the entries of a table of the type fit, where a field
  of the type is passed over if it does not?
-/
def FieldType.IsStrictEntry : FieldType → Prop
  | .int _ => True
  | .text => True
  | .array _ _ => True
  | _ => False

/- Other entries of tables are read as fields are. -/
theorem FieldType.readEntry_eq_result
    {type : FieldType}
    (hType : ¬type.IsStrictEntry)
    (name : String)
    (source : Source)
    (decode : type.Value → Reading type.Value) :
    type.readEntry name source decode =
      (decode type.default).result := by
  cases type with
  | int type => exact absurd trivial hType
  | text => exact absurd trivial hType
  | array element length => exact absurd trivial hType
  | bool => rfl
  | timestamp => rfl
  | float32 => rfl
  | float64 => rfl
  | char => rfl
  | slot kind => rfl
  | list element => rfl
  | document schema => rfl
  | table sorted key value => rfl

section Arrays

variable {element : Element} {length : Nat}
variable {decode :
  (FieldType.array element length).Value →
    Reading (FieldType.array element length).Value}

/- An array that is stored as bytes is read from bytes. -/
theorem FieldType.readEntry_array
    (hBytes : length = 0 ∨ element.shape = .byte)
    (name : String)
    (source : Source) :
    FieldType.readEntry (.array element length) name source
        decode =
      element.arrayOf length name (source.bytes name) := by
  refine if_neg ?_
  rintro ⟨hShape, hLength⟩
  rcases hBytes with hZero | hByte
  · exact Nat.ne_of_gt hLength hZero
  · exact hShape hByte

/- No other array is read from an entry. -/
theorem FieldType.isBytes_of_readEntry
    {name : String}
    {source : Source}
    {item : (FieldType.array element length).Value}
    (hRead :
      FieldType.readEntry (.array element length) name source
          decode = .ok item) :
    length = 0 ∨ element.shape = .byte := by
  by_cases hLength : length = 0
  · exact Or.inl hLength
  · by_cases hShape : element.shape = .byte
    · exact Or.inr hShape
    · have hError :
          FieldType.readEntry (.array element length) name
              source decode =
            .error (.arrayElement name element.name) :=
        if_pos ⟨hShape, Nat.pos_of_ne_zero hLength⟩
      cases hError.symm.trans hRead

end Arrays

/- Such an entry was read as a field is over the default. -/
theorem FieldType.decode_of_readEntry
    {type : FieldType}
    (hType : ¬type.IsStrictEntry)
    {name : String}
    {source : Source}
    {item : type.Value}
    (hRead :
      type.readEntry name source (type.decode name source) =
        .ok item) :
    type.decode name source type.default = (.ok (), item) := by
  rw [readEntry_eq_result hType] at hRead
  exact Reading.eq_of_result hRead

------------------------------------------------------------
-- Documents
------------------------------------------------------------

namespace Schema

variable {field name : String} {type : FieldType}
variable {rest : Schema} {source : Source}
variable {olds news : rest.Document}

/- A stored field is read before those behind it. -/
theorem decode_stored_eq_ok_iff
    {old new : type.Value} :
    (stored field name type rest).decode source (old, olds) =
        (.ok (), (new, news)) ↔
      type.decode name source old = (.ok (), new) ∧
      rest.decode source olds = (.ok (), news) := by
  rw [Schema.decode]
  rcases type.decode name source old with ⟨outcome, value⟩
  rcases rest.decode source olds with ⟨result, values⟩
  cases outcome with
  | error error =>
      constructor
      · intro hDecode
        cases hDecode
      · rintro ⟨hValue, _⟩
        cases hValue
  | ok _ =>
      constructor
      · intro hDecode
        cases hDecode
        exact ⟨rfl, rfl⟩
      · rintro ⟨hValue, hRest⟩
        cases hValue
        cases hRest
        rfl

/- The fields behind one that cannot be read are kept. -/
theorem decode_stored_of_error
    {old new : type.Value}
    {error : CodecError}
    (hValue :
      type.decode name source old = (.error error, new))
    (olds : rest.Document) :
    (stored field name type rest).decode source (old, olds) =
      (.error error, (new, olds)) := by
  rw [Schema.decode, hValue]
  rfl

/- A field that is skipped stays as it was. -/
theorem decode_skipped_eq_ok_iff
    {old new : type.Value} :
    (skipped field type rest).decode source (old, olds) =
        (.ok (), (new, news)) ↔
      new = old ∧
      rest.decode source olds = (.ok (), news) := by
  rw [Schema.decode]
  rcases rest.decode source olds with ⟨result, values⟩
  constructor
  · intro hDecode
    cases hDecode
    exact ⟨rfl, rfl⟩
  · rintro ⟨hValue, hRest⟩
    cases hValue
    cases hRest
    rfl

/- A context field has the context that was read. -/
theorem decode_context_eq_ok_iff
    {old new : Bytes} :
    (Schema.context field rest).decode source (old, olds) =
        (.ok (), (new, news)) ↔
      new = source.context ∧
      rest.decode source olds = (.ok (), news) := by
  rw [Schema.decode]
  rcases rest.decode source olds with ⟨result, values⟩
  constructor
  · intro hDecode
    cases hDecode
    exact ⟨rfl, rfl⟩
  · rintro ⟨hValue, hRest⟩
    cases hValue
    cases hRest
    rfl

end Schema

end CrdtDoc
