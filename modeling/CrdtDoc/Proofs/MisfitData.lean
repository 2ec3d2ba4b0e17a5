import CrdtDoc.Proofs.DocumentOrder
import CrdtDoc.Proofs.FirstFailure
import CrdtDoc.Proofs.LeafReading
import CrdtDoc.Proofs.RoundTrip

/-
  This file shows which stored data keeps a document from
  being read, and which is passed over.

  Reading walks through the fields in the order of their
  declaration, and within them through the maps of nested
  documents and tables.  It fails at the first of the data
  there that must fit and does not: the members of sets,
  points in time, the keys of tables, and the integers,
  texts and arrays that are entries of tables.  An integer,
  text or array that is a field need not fit: the field is
  left as it was.

  Key definitions include:
    * `Datum`
    * `Datum.Misfits`
    * `Schema.data`
    * `Schema.PassesOver`

  Main declarations:
    * `FieldType.failure?_decode`
    * `Schema.failure?_decode`
    * `Schema.passesOver_decode`
    * `Schema.misfit_of_decodeDocument`
-/

namespace CrdtDoc

------------------------------------------------------------
-- Data
------------------------------------------------------------

/- Stored data that must fit, and the field it is for. -/
inductive Datum where
  | integer (field : String) (type : IntType) (bytes : Bytes)
  | text (field : String) (bytes : Bytes)
  | array (field : String) (length : Nat) (bytes : Bytes)
  | timestamp (field : String) (bytes : Bytes)
  | key (field : String) (type : KeyType) (name : String)

/- Data does not fit, for a reason that names its field. -/
inductive Datum.Misfits : Datum → CodecError → Prop where
  | integer
      (field : String)
      {type : IntType}
      {bytes : Bytes}
      (hBytes : Integer.decode? type bytes = none) :
      Misfits (.integer field type bytes)
        (.invalidInteger field bytes)
  | text
      (field : String)
      {bytes : Bytes}
      (hBytes : Text.decode? bytes = none) :
      Misfits (.text field bytes) (.invalidText field)
  | array
      (field : String)
      {length : Nat}
      {bytes : Bytes}
      (hBytes : bytes.length ≠ length) :
      Misfits (.array field length bytes)
        (.arrayLength field length bytes.length)
  | timestamp
      (field : String)
      {bytes : Bytes}
      {reason : Timestamp.Malformed}
      (hBytes : Timestamp.ofBytes bytes = .error reason) :
      Misfits (.timestamp field bytes)
        (.invalidTimestamp field reason)
  | key
      (field : String)
      {type : KeyType}
      {name : String}
      (hName : type.parse? name = none) :
      Misfits (.key field type name)
        (.mapKey field name type.name)

/- What the register of a name is, if there is one. -/
def CrdtMap.registerData
    (map : CrdtMap)
    (name : String)
    (make : Bytes → Datum) : List Datum :=
  (map.register? name).toList.map make

/- What a member of the set of a list is. -/
def Element.data : Element → String → Bytes → List Datum
  | .int type, field, member => [.integer field type member]
  | .text, field, member => [.text field member]
  | .array _ length, field, member =>
      [.array field length member]
  | _, _, _ => []

/-
  What must fit in an entry of a table: integers, texts and
  arrays, and of other values what must fit in a field.  An
  array without elements is one of no bytes, whatever its
  elements would be.
-/
def FieldType.entryData
    (type : FieldType)
    (name : String)
    (map : CrdtMap)
    (others : List Datum) : List Datum :=
  match type with
  | .int type => map.registerData name (.integer name type)
  | .text => map.registerData name (.text name)
  | .array _ length =>
      map.registerData name (.array name length)
  | _ => others

mutual
/- The data that must fit in a field of a stored map. -/
def FieldType.data :
    FieldType → String → CrdtMap → List Datum
  | .timestamp, name, map =>
      map.registerData name (.timestamp name)
  | .list element, name, map =>
      if element.shape = .byte then []
      else
        ((map.set? name).getD []).flatMap (element.data name)
  | .document schema, name, map =>
      match map.map? name with
      | none => []
      | some child => schema.data child
  | .table _ key value, name, map =>
      match map.map? name with
      | none => []
      | some child =>
          (child.namesOf value.kind).flatMap fun entry =>
            .key name key entry ::
              value.entryData entry child
                (value.data entry child)
  | _, _, _ => []

/- The data that must fit in a document of a stored map. -/
def Schema.data : Schema → CrdtMap → List Datum
  | .nil, _ => []
  | .stored _ name type rest, map =>
      type.data name map ++ rest.data map
  | .skipped _ _ rest, map => rest.data map
  | .context _ rest, map => rest.data map
end

mutual
/-
  A field was left as it was where its register did not fit.
  A nested document was so in its fields, and each new entry
  of a table over the value that was not given.
-/
def FieldType.PassesOver :
    (type : FieldType) → String → CrdtMap → type.Value →
      type.Value → Prop
  | .int type, name, map, old, new =>
      ∀ bytes,
        map.register? name = some bytes →
        Integer.decode? type bytes = none →
        new = old
  | .text, name, map, old, new =>
      ∀ bytes,
        map.register? name = some bytes →
        Text.decode? bytes = none →
        new = old
  | .array _ length, name, map, old, new =>
      ∀ bytes,
        map.register? name = some bytes →
        bytes.length ≠ length →
        new = old
  | .document schema, name, map, old, new =>
      ∀ child,
        map.map? name = some child →
        schema.PassesOver child old new
  | .table _ key value, name, map, old, new =>
      ∀ child,
        map.map? name = some child →
        new = old ∨
        ∀ k item,
          Table.find? new k = some item →
          ∃ entry ∈ child.namesOf value.kind,
            key.parse? entry = some k ∧
            value.PassesOver entry child value.default item
  | _, _, _, _, _ => True

/- The fields of a document were so, one by one. -/
def Schema.PassesOver :
    (schema : Schema) → CrdtMap → schema.Document →
      schema.Document → Prop
  | .nil, _, _, _ => True
  | .stored _ name type rest, map, (old, olds), (new, news) =>
      type.PassesOver name map old new ∧
      rest.PassesOver map olds news
  | .skipped _ _ rest, map, (_, olds), (_, news) =>
      rest.PassesOver map olds news
  | .context _ rest, map, (_, olds), (_, news) =>
      rest.PassesOver map olds news
end

------------------------------------------------------------
-- Misfits
------------------------------------------------------------

/- Why data does not fit, if it does not. -/
def Datum.misfit? : Datum → Option CodecError
  | .integer field type bytes =>
      failure? (Element.integerOf type field bytes)
  | .text field bytes => failure? (Element.textOf field bytes)
  | .array field length bytes =>
      if bytes.length = length then none
      else some (.arrayLength field length bytes.length)
  | .timestamp field bytes =>
      failure?
        ((Timestamp.ofBytes bytes).mapError
          (.invalidTimestamp field))
  | .key field type name => failure? (type.read field name)

/- Data does not fit for the reason that it has. -/
theorem Datum.misfit?_eq_some_iff
    {datum : Datum}
    {error : CodecError} :
    datum.misfit? = some error ↔ datum.Misfits error := by
  constructor
  · intro hReason
    cases datum with
    | integer field type bytes =>
        simp only [misfit?, Element.integerOf] at hReason
        split at hReason
        · cases hReason
        · rename_i hNone
          cases hReason
          exact .integer field hNone
    | text field bytes =>
        simp only [misfit?, Element.textOf] at hReason
        split at hReason
        · cases hReason
        · rename_i hNone
          cases hReason
          exact .text field hNone
    | array field length bytes =>
        simp only [misfit?] at hReason
        split at hReason
        · cases hReason
        · rename_i hLength
          cases hReason
          exact .array field hLength
    | timestamp field bytes =>
        cases hBytes : Timestamp.ofBytes bytes with
        | ok time =>
            rw [misfit?, hBytes] at hReason
            cases hReason
        | error reason =>
            rw [misfit?, hBytes] at hReason
            cases hReason
            exact .timestamp field hBytes
    | key field type name =>
        simp only [misfit?, KeyType.read] at hReason
        split at hReason
        · cases hReason
        · rename_i hNone
          cases hReason
          exact .key field hNone
  · intro hMisfits
    cases hMisfits with
    | integer field hBytes =>
        rw [misfit?, Element.integerOf, hBytes]
        rfl
    | text field hBytes =>
        rw [misfit?, Element.textOf, hBytes]
        rfl
    | array field hBytes => exact if_neg hBytes
    | timestamp field hBytes =>
        rw [misfit?, hBytes]
        rfl
    | key field hName =>
        rw [misfit?, KeyType.read, hName]
        rfl

------------------------------------------------------------
-- Single Fields
------------------------------------------------------------

variable {source : Source} {name : String}

/- The first misfit of a register is that of its bytes. -/
theorem CrdtMap.findSome?_registerData
    (map : CrdtMap)
    (name : String)
    (make : Bytes → Datum) :
    (map.registerData name make).findSome? Datum.misfit? =
      (map.register? name).bind fun bytes =>
        (make bytes).misfit? := by
  rw [registerData]
  cases map.register? name with
  | none => rfl
  | some bytes => exact List.findSome?_singleton

/- What is read fails as what it is made of. -/
theorem Reading.failure?_replace
    {α : Type}
    (old : α)
    (result : Except CodecError α) :
    failure? (replace old result).1 = failure? result := by
  cases result <;> rfl

/- An array is read if there are as many bytes. -/
theorem Element.failure?_arrayOf
    (element : Element)
    (length : Nat)
    (field : String)
    (bytes : Bytes) :
    failure? (element.arrayOf length field bytes) =
      (Datum.array field length bytes).misfit? := by
  rw [arrayOf, arrayOf?, Datum.misfit?]
  by_cases hLength : bytes.length = length
  · rw [dif_pos hLength, if_pos hLength]
    rfl
  · rw [dif_neg hLength, if_neg hLength]
    rfl

/- A member of a set is read if it fits. -/
theorem Element.failure?_ofMember
    {element : Element}
    (hStorable : element.IsStorable)
    (hShape : element.shape ≠ .byte)
    (field : String)
    (member : Bytes) :
    failure? (element.ofMember field member) =
      (element.data field member).findSome?
        Datum.misfit? := by
  cases element with
  | int type =>
      have hMember :
          (Element.int type).ofMember field member =
            integerOf type field member := by
        cases type with
        | u8 => exact absurd rfl hShape
        | _ => rfl
      rw [hMember, Element.data, List.findSome?_singleton]
      rfl
  | text =>
      rw [Element.data, List.findSome?_singleton]
      rfl
  | list element =>
      have hByte : element.shape = .byte := hStorable
      rw [Element.ofMember, if_pos hByte]
      rfl
  | array element length =>
      have hByte : element.shape = .byte := hStorable
      rw [Element.data, List.findSome?_singleton,
        ← element.failure?_arrayOf length field member]
      exact congrArg failure? (if_pos hByte)
  | _ => exact hStorable.elim

/- A list is read if all members of its set fit. -/
theorem Source.failure?_items
    (source : Source)
    (name : String)
    {element : Element}
    (hStorable : element.IsStorable)
    (old : List element.Value) :
    failure? (source.items name element old) =
      (FieldType.data (.list element) name
        source.map).findSome? Datum.misfit? := by
  by_cases hByte : element.shape = .byte
  · simp only [FieldType.data, if_pos hByte]
    rw [items, hByte]
    cases source.map.register? name <;> rfl
  · have hShape :
        element.shape = .scalar ∨ element.shape = .nested := by
      cases hKind : element.shape with
      | byte => exact absurd hKind hByte
      | scalar => exact Or.inl rfl
      | nested => exact Or.inr rfl
      | unsupported => exact absurd hKind hStorable.shape_ne
    simp only [FieldType.data, if_neg hByte,
      findSome?_flatMap]
    rw [items_eq_of_set hShape]
    cases source.map.set? name with
    | none => rfl
    | some members =>
        simp only [Option.elim_some, failure?_mapM,
          Option.getD_some,
          Element.failure?_ofMember hStorable hByte]

/- A point in time is read if it is one. -/
theorem Source.failure?_timestamp
    (source : Source)
    (name : String)
    (old : Timestamp) :
    failure? (source.timestamp name old) =
      (FieldType.data .timestamp name
        source.map).findSome? Datum.misfit? := by
  rw [FieldType.data, CrdtMap.findSome?_registerData,
    timestamp]
  cases source.map.register? name <;> rfl

/- An array of bytes is always read. -/
theorem Source.failure?_array
    (source : Source)
    (name : String)
    {element : Element}
    {length : Nat}
    (hStorable : length = 0 ∨ element.shape = .byte)
    (old : Element.Sized element.Value length) :
    failure? (source.array name element length old) =
      none := by
  unfold array
  by_cases hEmpty : length = 0
  · rw [if_pos hEmpty]
    rfl
  · have hByte := hStorable.resolve_left hEmpty
    rw [if_neg hEmpty, if_neg (not_not.mpr hByte)]
    rfl

------------------------------------------------------------
-- Tables
------------------------------------------------------------

/- An entry of a table is read if what it has fits. -/
theorem FieldType.failure?_readEntry
    {type : FieldType}
    (hStorable : type.IsStorable)
    (hEntry : (source.map.entry name).Has type.kind)
    {decode : type.Value → Reading type.Value}
    {others : List Datum}
    (hOthers :
      failure? (decode type.default).1 =
        others.findSome? Datum.misfit?) :
    failure? (type.readEntry name source decode) =
      (type.entryData name source.map others).findSome?
        Datum.misfit? := by
  have hRegister :
      type.kind = .register →
        source.map.register? name =
          some (source.bytes name) := by
    intro hKind
    rw [hKind] at hEntry
    rcases Option.ne_none_iff_exists'.mp hEntry
      with ⟨bytes, hBytes⟩
    rw [Source.bytes_eq_of_register hBytes]
    exact hBytes
  by_cases hStrict : type.IsStrictEntry
  · cases type with
    | int type =>
        rw [entryData, CrdtMap.findSome?_registerData,
          hRegister rfl]
        rfl
    | text =>
        rw [entryData, CrdtMap.findSome?_registerData,
          hRegister rfl]
        rfl
    | array element length =>
        have hKind :
            (FieldType.array element length).kind =
              .register :=
          if_pos hStorable
        rw [entryData, CrdtMap.findSome?_registerData,
          hRegister hKind]
        rw [readEntry_array hStorable]
        exact element.failure?_arrayOf length name _
    | _ => exact hStrict.elim
  · have hData :
        type.entryData name source.map others = others := by
      cases type with
      | int type => exact absurd trivial hStrict
      | text => exact absurd trivial hStrict
      | array element length => exact absurd trivial hStrict
      | _ => rfl
    rw [readEntry_eq_result hStrict, hData, ← hOthers]
    exact failure?_map _ _

/- A table is read if each key and each entry fits. -/
theorem Source.failure?_table
    {key : KeyType}
    {value : FieldType}
    (hKind : ∀ kind, value.kind ≠ .unsupported kind)
    {decode : String → value.Value → Reading value.Value}
    {data : String → List Datum}
    (hData :
      ∀ entry ∈ source.map.namesOf value.kind,
        failure?
            (value.readEntry entry source (decode entry)) =
          (data entry).findSome? Datum.misfit?)
    (sorted : Bool) :
    failure?
        (source.table name sorted key value decode) =
      ((source.map.namesOf value.kind).flatMap fun entry =>
        .key name key entry :: data entry).findSome?
          Datum.misfit? := by
  rw [table_eq_foldlM hKind, findSome?_flatMap]
  -- The table so far has no part in what fails.
  let Holds
      (_ : Table sorted key value.Value)
      (left : List String) : Prop :=
    ∀ entry ∈ left, entry ∈ source.map.namesOf value.kind
  have hAll :
      Holds Table.empty (source.map.namesOf value.kind) :=
    fun _ hEntry => hEntry
  refine failure?_foldlM ?_ hAll
  intro before entry rest hNames
  refine ⟨?_, fun _ _ other hOther =>
    hNames other (List.mem_cons_of_mem _ hOther)⟩
  have hItem := hData entry (hNames entry List.mem_cons_self)
  have hInsert :
      ∀ k : key.Value,
        failure?
            (do
              let item ←
                value.readEntry entry source (decode entry)
              return before.insert k item) =
          (data entry).findSome? Datum.misfit? := by
    intro k
    rw [← hItem]
    exact failure?_map _ _
  rw [failure?_bind fun k _ => hInsert k,
    findSome?_cons_eq_or]
  rfl

------------------------------------------------------------
-- Documents
------------------------------------------------------------

/- Of two parts of a document, the first decides. -/
theorem Schema.failure?_decode_stored
    {type : FieldType}
    (field name : String)
    (rest : Schema)
    (source : Source)
    (old : type.Value)
    (olds : rest.Document) :
    failure?
        ((Schema.stored field name type rest).decode source
          (old, olds)).1 =
      (failure? (type.decode name source old).1).or
        (failure? (rest.decode source olds).1) := by
  rw [Schema.decode]
  rcases type.decode name source old
    with ⟨reason | done, value⟩ <;> rfl

mutual
/-
  A value is read if all of its data fits, and else fails
  at the first that does not.
-/
theorem FieldType.failure?_decode :
    (type : FieldType) → type.IsStorable → (name : String) →
      (source : Source) → (old : type.Value) →
      failure? (type.decode name source old).1 =
        (type.data name source.map).findSome? Datum.misfit?
  | .int _, _, _, _, _ => rfl
  | .text, _, _, _, _ => rfl
  | .bool, _, _, _, _ => rfl
  | .slot _, _, _, _, _ => rfl
  | .timestamp, _, name, source, old =>
      (Reading.failure?_replace old _).trans
        (source.failure?_timestamp name old)
  | .list element, hStorable, name, source, old =>
      (Reading.failure?_replace old _).trans
        (source.failure?_items name hStorable old)
  | .array element length, hStorable, name, source, old =>
      (Reading.failure?_replace old _).trans
        (source.failure?_array name hStorable old)
  | .document schema, hStorable, name, source, old => by
      rw [FieldType.decode, FieldType.data, Source.child?]
      cases source.map.map? name with
      | none => rfl
      | some child =>
          exact schema.failure?_decode hStorable _ old
  | .table sorted key value, hStorable, name, source,
    old => by
      have hValue : value.IsStorable := hStorable
      rw [FieldType.decode, FieldType.data, Source.child?]
      cases source.map.map? name with
      | none => rfl
      | some map =>
          let child : Source :=
            ⟨map, source.path.child name, source.context⟩
          have hEntries :
              ∀ entry ∈ child.map.namesOf value.kind,
                failure?
                    (value.readEntry entry child
                      (value.decode entry child)) =
                  (value.entryData entry child.map
                    (value.data entry
                      child.map)).findSome?
                    Datum.misfit? := by
            intro entry hEntry
            exact FieldType.failure?_readEntry hValue
              (CrdtMap.mem_namesOf_iff.mp hEntry)
              (value.failure?_decode hValue entry child _)
          exact (Reading.failure?_replace old _).trans
            (Source.failure?_table hValue.kind_ne hEntries
              sorted)

/-
  A document is read if all of its data fits, and else fails
  at the first that does not.
-/
theorem Schema.failure?_decode :
    (schema : Schema) → schema.IsStorable →
      (source : Source) → (old : schema.Document) →
      failure? (schema.decode source old).1 =
        (schema.data source.map).findSome? Datum.misfit?
  | .nil, _, _, _ => rfl
  | .stored field name type rest, hStorable, source,
    (old, olds) => by
      rw [Schema.failure?_decode_stored, Schema.data,
        List.findSome?_append,
        type.failure?_decode hStorable.1,
        rest.failure?_decode hStorable.2]
  | .skipped _ _ rest, hStorable, source, (_, olds) =>
      rest.failure?_decode hStorable source olds
  | .context _ rest, hStorable, source, (_, olds) =>
      rest.failure?_decode hStorable source olds
end

------------------------------------------------------------
-- Data Passed Over
------------------------------------------------------------

mutual
/- A value that stays as it was passes over everything. -/
theorem FieldType.PassesOver.refl :
    (type : FieldType) → (name : String) →
      (map : CrdtMap) → (old : type.Value) →
      type.PassesOver name map old old
  | .int _, _, _, _ => fun _ _ _ => rfl
  | .text, _, _, _ => fun _ _ _ => rfl
  | .array _ _, _, _, _ => fun _ _ _ => rfl
  | .document schema, _, _, old =>
      fun child _ => Schema.PassesOver.refl schema child old
  | .table _ _ _, _, _, _ => fun _ _ => Or.inl rfl
  | .bool, _, _, _
  | .timestamp, _, _, _
  | .float32, _, _, _
  | .float64, _, _, _
  | .char, _, _, _
  | .slot _, _, _, _
  | .list _, _, _, _ => trivial

/- A document that stays as it was does so, too. -/
theorem Schema.PassesOver.refl :
    (schema : Schema) → (map : CrdtMap) →
      (old : schema.Document) →
      schema.PassesOver map old old
  | .nil, _, _ => trivial
  | .stored _ name type rest, map, (old, olds) =>
      ⟨FieldType.PassesOver.refl type name map old,
        Schema.PassesOver.refl rest map olds⟩
  | .skipped _ _ rest, map, (_, olds) =>
      Schema.PassesOver.refl rest map olds
  | .context _ rest, map, (_, olds) =>
      Schema.PassesOver.refl rest map olds
end

/- What must fit and was read has nothing to pass over. -/
theorem FieldType.IsStrictEntry.passesOver
    {type : FieldType}
    (hStrict : type.IsStrictEntry)
    {decode : type.Value → Reading type.Value}
    {item : type.Value}
    (hRead :
      type.readEntry name source decode = .ok item)
    (old : type.Value) :
    type.PassesOver name source.map old item := by
  cases type with
  | int type =>
      intro bytes hFound hNone
      have hItem :
          Element.integerOf type name bytes = .ok item :=
        Source.bytes_eq_of_register hFound ▸ hRead
      have hMisfit :=
        Datum.misfit?_eq_some_iff.mpr (.integer name hNone)
      rw [Datum.misfit?, hItem] at hMisfit
      cases hMisfit
  | text =>
      intro bytes hFound hNone
      have hItem : Element.textOf name bytes = .ok item :=
        Source.bytes_eq_of_register hFound ▸ hRead
      have hMisfit :=
        Datum.misfit?_eq_some_iff.mpr (.text name hNone)
      rw [Datum.misfit?, hItem] at hMisfit
      cases hMisfit
  | array element length =>
      intro bytes hFound hLength
      rw [readEntry_array (isBytes_of_readEntry hRead)]
        at hRead
      have hItem :
          element.arrayOf length name bytes = .ok item :=
        Source.bytes_eq_of_register hFound ▸ hRead
      have hMisfit :=
        Datum.misfit?_eq_some_iff.mpr (.array name hLength)
      rw [← element.failure?_arrayOf, hItem] at hMisfit
      cases hMisfit
  | _ => exact hStrict.elim

/- A register that cannot be read keeps the old value. -/
theorem Reading.orKeep_of_misfit
    {α : Type}
    {register? : Option Bytes}
    {bytes : Bytes}
    (hFound : register? = some bytes)
    {read? : Bytes → Option α}
    (hNone : read? bytes = none)
    (old : α) :
    (orKeep old (register?.bind read?)).2 = old := by
  rw [hFound, Option.bind_some, hNone]
  rfl

/- A register of another length keeps the old array. -/
theorem Source.replace_array_of_length_ne
    {bytes : Bytes}
    (hFound : source.map.register? name = some bytes)
    {element : Element}
    {length : Nat}
    (hLength : bytes.length ≠ length)
    (old : Element.Sized element.Value length) :
    (Reading.replace old
      (source.array name element length old)).2 = old := by
  have hNone : element.arrayOf? length bytes = none :=
    dif_neg hLength
  unfold Source.array
  rw [hFound, Option.bind_some, hNone]
  split
  · rfl
  · split <;> rfl

mutual
/- A field whose register does not fit is left as it was. -/
theorem FieldType.passesOver_decode :
    (type : FieldType) → (name : String) →
      (source : Source) → (old : type.Value) →
      type.PassesOver name source.map old
        (type.decode name source old).2
  | .int _, _, _, old => fun _ hFound hNone =>
      Reading.orKeep_of_misfit hFound hNone old
  | .text, _, _, old => fun _ hFound hNone =>
      Reading.orKeep_of_misfit hFound hNone old
  | .array _ _, _, _, old => fun _ hFound hLength =>
      Source.replace_array_of_length_ne hFound hLength old
  | .document schema, name, source, old => by
      intro map hFound
      let child : Source :=
        ⟨map, source.path.child name, source.context⟩
      have hChild : source.child? name = some child :=
        congrArg (Option.map _) hFound
      rw [FieldType.decode_document_some hChild]
      exact schema.passesOver_decode child old
  | .table sorted key value, name, source, old => by
      intro map hFound
      let child : Source :=
        ⟨map, source.path.child name, source.context⟩
      have hValue :
          ∀ entry,
            value.PassesOver entry map value.default
              (value.decode entry child value.default).2 :=
        fun entry => value.passesOver_decode entry child _
      rw [FieldType.decode, Source.child?, hFound]
      cases hTable :
          child.table name sorted key value
            fun entry => value.decode entry child with
      | error error =>
          exact Or.inl (congrArg Prod.snd
            (congrArg (Reading.replace old) hTable))
      | ok table =>
          refine Or.inr fun k item hItem => ?_
          have hNew :
              (Reading.replace old (child.table name sorted key
                value fun entry =>
                  value.decode entry child)).2 = table :=
            congrArg Prod.snd
              (congrArg (Reading.replace old) hTable)
          have hEntry : table.find? k = some item :=
            hNew ▸ hItem
          rcases Source.readsEntry_of_find? hTable hEntry
            with ⟨entry, hMem, hKey, hRead⟩
          refine ⟨entry, hMem, KeyType.read_eq_ok_iff.mp hKey,
            ?_⟩
          by_cases hStrict : value.IsStrictEntry
          · exact hStrict.passesOver hRead _
          · have hDecode :=
              FieldType.decode_of_readEntry hStrict hRead
            have hKept := hValue entry
            rwa [hDecode] at hKept
  | .bool, _, _, _
  | .timestamp, _, _, _
  | .float32, _, _, _
  | .float64, _, _, _
  | .char, _, _, _
  | .slot _, _, _, _
  | .list _, _, _, _ => trivial

/-
  The fields of a document whose registers do not fit are
  left as they were, whether it could be read or not.
-/
theorem Schema.passesOver_decode :
    (schema : Schema) → (source : Source) →
      (old : schema.Document) →
      schema.PassesOver source.map old
        (schema.decode source old).2
  | .nil, _, _ => trivial
  | .stored field name type rest, source, (old, olds) => by
      have hFirst := type.passesOver_decode name source old
      have hRest := rest.passesOver_decode source olds
      rw [Schema.decode]
      rcases hValue : type.decode name source old
        with ⟨reason | done, value⟩
      · rw [hValue] at hFirst
        exact ⟨hFirst, Schema.PassesOver.refl rest _ olds⟩
      · rw [hValue] at hFirst
        exact ⟨hFirst, hRest⟩
  | .skipped _ _ rest, source, (_, olds) =>
      rest.passesOver_decode source olds
  | .context _ rest, source, (_, olds) =>
      rest.passesOver_decode source olds
end

------------------------------------------------------------
-- Documents at a Path
------------------------------------------------------------

/- The maps within a well-formed map are well-formed. -/
theorem CrdtMap.WellFormed.reach
    {map : CrdtMap}
    (hWell : map.WellFormed)
    (path : List String) :
    (map.reach path).WellFormed := by
  induction path generalizing map with
  | nil => exact hWell
  | cons name rest ih =>
      rw [reach_cons]
      exact ih (hWell.child name)

/-
  A document of a storable schema is read unless some of the
  data that must fit does not, and then fails at the first,
  with entries in the order of their names.  In any case
  the integers, texts and arrays that do not fit a field
  leave it as it was.
-/
theorem Schema.misfit_of_decodeDocument
    (schema : Schema)
    (hStorable : schema.IsStorable)
    (map : CrdtMap)
    (context : Bytes)
    (root : Path)
    (old : schema.Document) :
    let stored := map.reach root.segments
    let reading := schema.decodeDocument map context root old
    ((∃ error, reading.1 = .error error) ↔
      ∃ datum ∈ schema.data stored,
        ∃ error, datum.Misfits error) ∧
    (∀ error,
      reading.1 = .error error ↔
        ∃ front datum back,
          schema.data stored = front ++ datum :: back ∧
          (∀ other ∈ front, ∀ reason,
            ¬other.Misfits reason) ∧
          datum.Misfits error) ∧
    schema.PassesOver stored old reading.2 ∧
    (map.WellFormed →
      ∀ path kind,
        ((stored.reach path).namesOf kind).Pairwise
          (· < ·)) := by
  intro stored reading
  let source : Source := ⟨stored, root, context⟩
  have hFailure :
      failure? reading.1 =
        (schema.data stored).findSome? Datum.misfit? :=
    schema.failure?_decode hStorable source old
  refine ⟨?_, ?_, schema.passesOver_decode source old, ?_⟩
  · simp only [← failure?_eq_some_iff, hFailure,
      exists_findSome?_iff, Datum.misfit?_eq_some_iff]
  · intro error
    rw [← failure?_eq_some_iff, hFailure,
      findSome?_eq_some_iff_first]
    simp only [ne_eq, Datum.misfit?_eq_some_iff]
  · intro hWell path kind
    exact ((hWell.reach _).reach path).ascending_namesOf kind

/-
  In the one entry of a table, an integer is passed over,
  and the second member of a set does not fit.
-/
theorem Schema.misfit_of_decodeDocument_member :
    let row : Schema :=
      .stored "n" "n" (.int .u16)
        (.stored "s" "s" (.list (.int .i32)) .nil)
    let schema : Schema :=
      .stored "age" "age" (.int .i32)
        (.stored "rows" "rows"
          (.table true (.int .u8) (.document row)) .nil)
    let stored : CrdtMap :=
      { CrdtMap.empty with
        registers := [("n", [0x78])]
        sets := [("s", [[0x31], [0x78]])] }
    let map : CrdtMap :=
      { CrdtMap.empty with
        registers := [("age", [0x6F, 0x6C, 0x64])]
        maps :=
          [("rows",
            { CrdtMap.empty with maps := [("1", stored)] })] }
    let three : Integer .i32 := ⟨3, by decide, by decide⟩
    let old : schema.Document := (three, Table.empty, ())
    let root := Path.root ⟨"b", "t", "k"⟩
    let reading := schema.decodeDocument map [7] root old
    schema.IsStorable ∧
    reading.1 = .error (.invalidInteger "s" [0x78]) ∧
    reading.2.1 = three := by
  intro row schema stored map three old root reading
  have hStorable : schema.IsStorable :=
    ⟨trivial, ⟨trivial, trivial, trivial⟩, trivial⟩
  obtain ⟨_, hFirst, hKept, _⟩ :=
    schema.misfit_of_decodeDocument hStorable map [7] root old
  have hFits :
      ∀ other ∈ [Datum.key "rows" (.int .u8) "1",
          .integer "s" .i32 [0x31]],
        other.misfit? = none := by
    decide
  refine ⟨hStorable, (hFirst _).mpr ?_,
    hKept.1 [0x6F, 0x6C, 0x64] rfl (by decide)⟩
  refine ⟨[.key "rows" (.int .u8) "1",
      .integer "s" .i32 [0x31]],
    .integer "s" .i32 [0x78], [], rfl, ?_,
    .integer "s" (by decide)⟩
  intro other hOther reason hMisfits
  rw [← Datum.misfit?_eq_some_iff, hFits other hOther]
    at hMisfits
  cases hMisfits

end CrdtDoc
