import CrdtDoc.Encode
import CrdtDoc.Proofs.Sequencing
import CrdtDoc.Proofs.UpdateAtPath

/-
  This file shows that writing a document so that its empty
  slots are bound comes to the same as writing it otherwise,
  and says which slots are bound: all of them, or those in
  front of the field that could not be written.

  Fields are counted in the order of their declaration, a
  nested document with each of its own fields, and a table
  as one field.

  Key definitions include:
    * `Schema.fieldCount`
    * `Schema.fill`
    * `Schema.fillFirst`
    * `Schema.FailsAt`

  Main declarations:
    * `FieldType.encodeBinding_keeping`
    * `Schema.fills_encodeBinding`
    * `Schema.encodeDocumentBinding_fills`
-/

namespace CrdtDoc

------------------------------------------------------------
-- Filled Slots
------------------------------------------------------------

mutual
/- The number of fields of a type. -/
def FieldType.fieldCount : FieldType → Nat
  | .document schema => schema.fieldCount
  | _ => 1

/- The number of stored fields at every depth. -/
def Schema.fieldCount : Schema → Nat
  | .nil => 0
  | .stored _ _ type rest =>
      type.fieldCount + rest.fieldCount
  | .skipped _ _ rest => rest.fieldCount
  | .context _ rest => rest.fieldCount
end

mutual
/-
  Fill the slots of a value that are within no table: an
  empty one with a handle of its entry, without a context.
-/
def FieldType.fill :
    (type : FieldType) → type.Value → Path → String →
      type.Value
  | .slot kind, slot, path, name =>
      some (Option.getD slot (kind.bound ⟨path, name, []⟩))
  | .document schema, document, path, name =>
      schema.fill document (path.child name)
  | _, value, _, _ => value

/- Fill the slots of a document that are within no table. -/
def Schema.fill :
    (schema : Schema) → schema.Document → Path →
      schema.Document
  | .nil, document, _ => document
  | .stored _ name type rest, (value, values), path =>
      (type.fill value path name, rest.fill values path)
  | .skipped _ _ rest, (value, values), path =>
      (value, rest.fill values path)
  | .context _ rest, (value, values), path =>
      (value, rest.fill values path)
end

mutual
/- Fill the slots among the first fields of a value. -/
def FieldType.fillFirst :
    (type : FieldType) → Nat → type.Value → Path → String →
      type.Value
  | .slot kind, count, slot, path, name =>
      if count = 0 then slot
      else some (Option.getD slot (kind.bound ⟨path, name, []⟩))
  | .document schema, count, document, path, name =>
      schema.fillFirst count document (path.child name)
  | _, _, value, _, _ => value

/- Fill the slots among the first fields of a document. -/
def Schema.fillFirst :
    (schema : Schema) → Nat → schema.Document → Path →
      schema.Document
  | .nil, _, document, _ => document
  | .stored _ name type rest, count, (value, values), path =>
      (type.fillFirst count value path name,
        rest.fillFirst (count - type.fieldCount) values path)
  | .skipped _ _ rest, count, (value, values), path =>
      (value, rest.fillFirst count values path)
  | .context _ rest, count, (value, values), path =>
      (value, rest.fillFirst count values path)
end

mutual
/-
  A value cannot be written because of one of its fields,
  after those in front of it were written.
-/
def FieldType.FailsAt :
    (type : FieldType) → type.Value → String → Update →
      EncodeFailure → Nat → Prop
  | .document schema, document, name, update, failure,
    index =>
      schema.FailsAt document (update.child name) failure index
  | type, value, name, update, failure, index =>
      index = 0 ∧
      type.encode value name update = .error failure

/-
  A document cannot be written because of one of its fields,
  after those in front of it were written.
-/
def Schema.FailsAt :
    (schema : Schema) → schema.Document → Update →
      EncodeFailure → Nat → Prop
  | .nil, _, _, _, _ => False
  | .stored _ name type rest, (value, values), update,
    failure, index =>
      type.FailsAt value name update failure index ∨
      ∃ middle later,
        type.encode value name update = .ok middle ∧
        rest.FailsAt values middle failure later ∧
        index = type.fieldCount + later
  | .skipped _ _ rest, (_, values), update, failure, index =>
      rest.FailsAt values update failure index
  | .context _ rest, (_, values), update, failure, index =>
      rest.FailsAt values update failure index
end

------------------------------------------------------------
-- Counted Fields
------------------------------------------------------------

/- Is a type neither that of slots nor of documents? -/
def FieldType.IsPlain : FieldType → Prop
  | .slot _ => False
  | .document _ => False
  | _ => True

namespace FieldType

variable {type : FieldType}

/- A plain value has no slots to fill. -/
theorem IsPlain.fill_eq
    (hPlain : type.IsPlain)
    (value : type.Value)
    (path : Path)
    (name : String) :
    type.fill value path name = value := by
  cases type <;> first | rfl | exact hPlain.elim

/- A plain value has no slots to fill first. -/
theorem IsPlain.fillFirst_eq
    (hPlain : type.IsPlain)
    (count : Nat)
    (value : type.Value)
    (path : Path)
    (name : String) :
    type.fillFirst count value path name = value := by
  cases type <;> first | rfl | exact hPlain.elim

end FieldType

mutual
/- Nothing is filled in front of the first field. -/
theorem FieldType.fillFirst_zero :
    (type : FieldType) → (value : type.Value) →
      (path : Path) → (name : String) →
      type.fillFirst 0 value path name = value
  | .document schema, document, path, name =>
      schema.fillFirst_zero document (path.child name)
  | .slot _, _, _, _ | .int _, _, _, _ | .text, _, _, _
  | .bool, _, _, _ | .timestamp, _, _, _ | .float32, _, _, _
  | .float64, _, _, _ | .char, _, _, _ | .list _, _, _, _
  | .array _ _, _, _, _ | .table _ _ _, _, _, _ => rfl

/- Nothing is filled in front of the first field. -/
theorem Schema.fillFirst_zero :
    (schema : Schema) → (document : schema.Document) →
      (path : Path) →
      schema.fillFirst 0 document path = document
  | .nil, _, _ => rfl
  | .stored _ name type rest, (value, values), path => by
      rw [Schema.fillFirst, Nat.zero_sub, type.fillFirst_zero,
        rest.fillFirst_zero]
  | .skipped _ _ rest, (value, values), path => by
      rw [Schema.fillFirst, rest.fillFirst_zero]
  | .context _ rest, (value, values), path => by
      rw [Schema.fillFirst, rest.fillFirst_zero]
end

mutual
/- All slots are filled if all fields are counted. -/
theorem FieldType.fillFirst_of_le :
    (type : FieldType) → (value : type.Value) →
      (path : Path) → (name : String) → {count : Nat} →
      type.fieldCount ≤ count →
      type.fillFirst count value path name =
        type.fill value path name
  | .document schema, document, path, name, _, hCount =>
      schema.fillFirst_of_le document (path.child name) hCount
  | .slot _, _, _, _, _ + 1, _ => rfl
  | .int _, _, _, _, _, _ | .text, _, _, _, _, _
  | .bool, _, _, _, _, _ | .timestamp, _, _, _, _, _
  | .float32, _, _, _, _, _ | .float64, _, _, _, _, _
  | .char, _, _, _, _, _ | .list _, _, _, _, _, _
  | .array _ _, _, _, _, _, _
  | .table _ _ _, _, _, _, _, _ => rfl

/- All slots are filled if all fields are counted. -/
theorem Schema.fillFirst_of_le :
    (schema : Schema) → (document : schema.Document) →
      (path : Path) → {count : Nat} →
      schema.fieldCount ≤ count →
      schema.fillFirst count document path =
        schema.fill document path
  | .nil, _, _, _, _ => rfl
  | .stored _ name type rest, (value, values), path, count,
    hCount => by
      rw [Schema.fieldCount] at hCount
      rw [Schema.fillFirst, Schema.fill,
        type.fillFirst_of_le value path name (by omega),
        rest.fillFirst_of_le values path (by omega)]
  | .skipped _ _ rest, (value, values), path, _, hCount => by
      rw [Schema.fillFirst, Schema.fill,
        rest.fillFirst_of_le values path hCount]
  | .context _ rest, (value, values), path, _, hCount => by
      rw [Schema.fillFirst, Schema.fill,
        rest.fillFirst_of_le values path hCount]
end

------------------------------------------------------------
-- Kept Slots
------------------------------------------------------------

/- Changes that keep the values only change the state. -/
theorem Table.change_of_kept
    {sorted : Bool}
    {key : KeyType}
    {α ε σ : Type}
    {change : key.Value → α → σ → Except ε σ × α}
    (step : σ → key.Value × α → Except ε σ)
    (hKept :
      ∀ k value state,
        change k value state = (step state (k, value), value))
    (table : Table sorted key α)
    (state : σ) :
    Table.change change table state =
      (table.entries.foldlM step state, table) := by
  have hEntries :
      ∀ (entries : List (key.Value × α)) (state : σ),
        changeEntries change entries state =
          (entries.foldlM step state, entries) := by
    intro entries
    induction entries with
    | nil => exact fun _ => rfl
    | cons entry rest ih =>
        intro state
        rcases entry with ⟨k, value⟩
        rw [changeEntries, hKept, List.foldlM_cons]
        cases step state (k, value) with
        | error failure => rfl
        | ok next =>
            simp only [ih]
            rfl
  rcases table with ⟨entries, hFollows⟩
  simp only [Table.change, hEntries]

mutual
/- A value whose slots are kept is written as it is. -/
theorem FieldType.encodeBinding_keeping :
    (type : FieldType) → (value : type.Value) →
      (name : String) → (path : Path) → (update : Update) →
      type.encodeBinding value name .keeping path update =
        (type.encode value name update, value)
  | .slot kind, slot, name, path, update => by
      rw [FieldType.encodeBinding]
      cases FieldType.encode (.slot kind) slot name update <;>
        rfl
  | .document schema, document, name, path, update => by
      have hInner :=
        schema.encodeBinding_keeping document
          (path.child name) (update.child name)
      rw [FieldType.encodeBinding, hInner, FieldType.encode]
      cases schema.encode document (update.child name) <;> rfl
  | .table sorted key type, table, name, path, update => by
      let step
          (child : Update)
          (entry : key.Value × type.Value) :=
        type.encode entry.2 (key.written entry.1) child
      have hInner :=
        Table.change_of_kept step
          (fun k value child =>
            type.encodeBinding_keeping value (key.written k)
              (path.child name) child)
          table (update.child name)
      rw [FieldType.encodeBinding, hInner, FieldType.encode]
      change (((Table.entries table).foldlM step
          (update.child name)).map (update.setChild name),
          table) =
        ((Table.entries table).foldlM step
          (update.child name) >>= fun child =>
            .ok (update.setChild name child), table)
      cases (Table.entries table).foldlM step
        (update.child name) <;> rfl
  | .int _, _, _, _, _ | .text, _, _, _, _
  | .bool, _, _, _, _ | .timestamp, _, _, _, _
  | .float32, _, _, _, _ | .float64, _, _, _, _
  | .char, _, _, _, _ | .list _, _, _, _, _
  | .array _ _, _, _, _, _ => rfl

/- A document whose slots are kept is written as it is. -/
theorem Schema.encodeBinding_keeping :
    (schema : Schema) → (document : schema.Document) →
      (path : Path) → (update : Update) →
      schema.encodeBinding document .keeping path update =
        (schema.encode document update, document)
  | .nil, _, _, _ => rfl
  | .stored _ name type rest, (value, values), path,
    update => by
      rw [Schema.encodeBinding, type.encodeBinding_keeping,
        Schema.encode]
      cases type.encode value name update with
      | error failure => rfl
      | ok middle =>
          simp only [rest.encodeBinding_keeping]
          rfl
  | .skipped _ _ rest, (value, values), path, update => by
      rw [Schema.encodeBinding, rest.encodeBinding_keeping,
        Schema.encode]
  | .context _ rest, (value, values), path, update => by
      rw [Schema.encodeBinding, rest.encodeBinding_keeping,
        Schema.encode]
end

------------------------------------------------------------
-- Filled Slots on the Way
------------------------------------------------------------

/-
  Something is written as it would be otherwise.  Then all
  its slots are filled, or those in front of the one field
  that could not be written.
-/
structure Fills
    {α : Type}
    (written : Except EncodeFailure Update)
    (failsAt : EncodeFailure → Nat → Prop)
    (count : Nat)
    (fill : α)
    (fillFirst : Nat → α)
    (outcome : Except EncodeFailure Update × α) : Prop where
  result : outcome.1 = written
  filled :
    ∀ {after},
      written = .ok after →
        outcome.2 = fill ∧
        ∀ failure index, ¬failsAt failure index
  failed :
    ∀ {failure},
      written = .error failure →
        ∃ index,
          index < count ∧
          outcome.2 = fillFirst index ∧
          ∀ other at_,
            failsAt other at_ ↔ other = failure ∧ at_ = index

/- A plain value is written as it is, and not filled. -/
theorem FieldType.fills_of_plain
    {type : FieldType}
    (value : type.Value)
    (name : String)
    (path : Path)
    (update : Update)
    (hPlain : type.IsPlain) :
    Fills (type.encode value name update)
      (type.FailsAt value name update) type.fieldCount
      (type.fill value path name)
      (type.fillFirst · value path name)
      (type.encode value name update, value) := by
  have hFails :
      ∀ failure index,
        type.FailsAt value name update failure index ↔
          index = 0 ∧
          type.encode value name update = .error failure := by
    intro failure index
    cases type <;> first | exact Iff.rfl | exact hPlain.elim
  have hCount : type.fieldCount = 1 := by
    cases type <;> first | rfl | exact hPlain.elim
  refine ⟨rfl, ?_, ?_⟩
  · intro after hAfter
    refine ⟨(hPlain.fill_eq value path name).symm, ?_⟩
    intro failure index hIndex
    rw [hFails, hAfter] at hIndex
    cases hIndex.2
  · intro failure hFailure
    refine ⟨0, hCount ▸ Nat.one_pos,
      (hPlain.fillFirst_eq 0 value path name).symm, ?_⟩
    intro other index
    rw [hFails, hFailure, Except.error.injEq, and_comm,
      eq_comm]

/- A slot is filled once it is written. -/
theorem FieldType.fills_slot
    (kind : HandleKind)
    (slot : (FieldType.slot kind).Value)
    (name : String)
    (path : Path)
    (update : Update) :
    Fills (FieldType.encode (.slot kind) slot name update)
      (FieldType.FailsAt (.slot kind) slot name update)
      (FieldType.fieldCount (.slot kind))
      (FieldType.fill (.slot kind) slot path name)
      (FieldType.fillFirst (.slot kind) · slot path name)
      (FieldType.encodeBinding (.slot kind) slot name .filling
        path update) := by
  have hFails :
      ∀ failure index,
        FieldType.FailsAt (.slot kind) slot name update
            failure index ↔
          index = 0 ∧
          FieldType.encode (.slot kind) slot name update =
            .error failure :=
    fun _ _ => Iff.rfl
  rw [FieldType.encodeBinding]
  cases hEncode :
      FieldType.encode (.slot kind) slot name update with
  | error reason =>
      refine ⟨rfl, nofun, ?_⟩
      intro failure hFailure
      refine ⟨0, Nat.one_pos, rfl, ?_⟩
      intro other index
      rw [hFails, hEncode, hFailure, Except.error.injEq,
        and_comm, eq_comm]
  | ok after =>
      refine ⟨rfl, ?_, nofun⟩
      intro _ _
      refine ⟨rfl, ?_⟩
      intro failure index hIndex
      rw [hFails, hEncode] at hIndex
      cases hIndex.2

/- What is put into a larger update is filled all the same. -/
theorem Fills.map
    {α : Type}
    {written : Except EncodeFailure Update}
    {failsAt : EncodeFailure → Nat → Prop}
    {count : Nat}
    {fill : α}
    {fillFirst : Nat → α}
    {outcome : Except EncodeFailure Update × α}
    (hFills :
      Fills written failsAt count fill fillFirst outcome)
    (larger : Update → Update) :
    Fills (written.map larger) failsAt count fill fillFirst
      (outcome.1.map larger, outcome.2) := by
  refine
    ⟨congrArg (Except.map larger) hFills.result, ?_, ?_⟩
  · intro after hAfter
    cases hWritten : written with
    | error failure =>
        rw [hWritten] at hAfter
        cases hAfter
    | ok inner => exact hFills.filled hWritten
  · intro failure hFailure
    cases hWritten : written with
    | error reason =>
        rw [hWritten] at hFailure
        cases hFailure
        exact hFills.failed hWritten
    | ok inner =>
        rw [hWritten] at hFailure
        cases hFailure

/- What is part of something larger is filled all the same. -/
theorem Fills.within
    {α β : Type}
    {written : Except EncodeFailure Update}
    {failsAt : EncodeFailure → Nat → Prop}
    {count : Nat}
    {fill : α}
    {fillFirst : Nat → α}
    {outcome : Except EncodeFailure Update × α}
    (hFills :
      Fills written failsAt count fill fillFirst outcome)
    (larger : α → β) :
    Fills written failsAt count (larger fill)
      (fun index => larger (fillFirst index))
      (outcome.1, larger outcome.2) := by
  refine ⟨hFills.result, ?_, ?_⟩
  · intro after hAfter
    rcases hFills.filled hAfter with ⟨hNew, hNone⟩
    exact ⟨congrArg larger hNew, hNone⟩
  · intro failure hFailure
    rcases hFills.failed hFailure
      with ⟨index, hIndex, hNew, hOnly⟩
    exact ⟨index, hIndex, congrArg larger hNew, hOnly⟩

/- A stored field is filled before those behind it. -/
theorem Schema.fills_stored
    {field name : String}
    {type : FieldType}
    {rest : Schema}
    {value : type.Value}
    {values : rest.Document}
    {path : Path}
    {update : Update}
    (hValue :
      Fills (type.encode value name update)
        (type.FailsAt value name update) type.fieldCount
        (type.fill value path name)
        (type.fillFirst · value path name)
        (type.encodeBinding value name .filling path update))
    (hValues :
      ∀ middle,
        Fills (rest.encode values middle)
          (rest.FailsAt values middle) rest.fieldCount
          (rest.fill values path)
          (rest.fillFirst · values path)
          (rest.encodeBinding values .filling path middle)) :
    let schema := Schema.stored field name type rest
    let document : schema.Document := (value, values)
    Fills (schema.encode document update)
      (schema.FailsAt document update) schema.fieldCount
      (schema.fill document path)
      (schema.fillFirst · document path)
      (schema.encodeBinding document .filling path
        update) := by
  intro schema document
  change Fills
    (type.encode value name update >>= rest.encode values)
    _ _ _ _ _
  rw [Schema.encodeBinding]
  rcases hOutcome :
      type.encodeBinding value name .filling path update
    with ⟨result, new⟩
  rw [hOutcome] at hValue
  have hResult : result = type.encode value name update :=
    hValue.result
  subst hResult
  cases hEncode : type.encode value name update with
  | error reason =>
      rcases hValue.failed hEncode
        with ⟨index, hIndex, hNew, hOnly⟩
      have hFails :
          ∀ other index,
            schema.FailsAt document update other index ↔
              type.FailsAt value name update other index := by
        intro other index
        change type.FailsAt value name update other index ∨
          _ ↔ _
        rw [or_iff_left]
        rintro ⟨middle, later, hMiddle, _⟩
        rw [hEncode] at hMiddle
        cases hMiddle
      refine ⟨rfl, nofun, ?_⟩
      intro failure hFailure
      cases hFailure
      refine ⟨index, Nat.lt_add_right _ hIndex, ?_, ?_⟩
      · change (new, values) =
          (type.fillFirst index value path name,
            rest.fillFirst (index - type.fieldCount) values
              path)
        rw [Nat.sub_eq_zero_of_le (Nat.le_of_lt hIndex),
          rest.fillFirst_zero]
        exact congrArg (·, values) hNew
      · intro other at_
        rw [hFails, hOnly]
  | ok middle =>
      rcases hValue.filled hEncode with ⟨hNew, hNone⟩
      have hRest := hValues middle
      have hFails :
          ∀ other index,
            schema.FailsAt document update other index ↔
              ∃ later,
                rest.FailsAt values middle other later ∧
                index = type.fieldCount + later := by
        intro other index
        change type.FailsAt value name update other index ∨
          _ ↔ _
        rw [or_iff_right (hNone other index)]
        constructor
        · rintro ⟨found, later, hFound, hLater⟩
          rw [hEncode] at hFound
          cases hFound
          exact ⟨later, hLater⟩
        · rintro ⟨later, hLater⟩
          exact ⟨middle, later, hEncode, hLater⟩
      refine ⟨hRest.result, ?_, ?_⟩
      · intro after hAfter
        rcases hRest.filled hAfter with ⟨hNews, hNever⟩
        refine ⟨congrArg₂ Prod.mk hNew hNews, ?_⟩
        intro failure index hIndex
        rcases (hFails failure index).mp hIndex
          with ⟨later, hLater, _⟩
        exact hNever failure later hLater
      · intro failure hFailure
        rcases hRest.failed hFailure
          with ⟨later, hLater, hNews, hOnly⟩
        refine
          ⟨type.fieldCount + later,
            Nat.add_lt_add_left hLater _, ?_, ?_⟩
        · change (new, _) =
            (type.fillFirst (type.fieldCount + later) value
                path name,
              rest.fillFirst
                (type.fieldCount + later - type.fieldCount)
                values path)
          rw [Nat.add_sub_cancel_left,
            type.fillFirst_of_le value path name
              (Nat.le_add_right _ _)]
          exact congrArg₂ Prod.mk hNew hNews
        · intro other at_
          rw [hFails]
          constructor
          · rintro ⟨found, hFound, hAt⟩
            rcases (hOnly other found).mp hFound
              with ⟨hOther, hEq⟩
            exact ⟨hOther, hEq ▸ hAt⟩
          · rintro ⟨hOther, hAt⟩
            exact ⟨later, (hOnly other later).mpr
              ⟨hOther, rfl⟩, hAt⟩

mutual
/- A value is written as otherwise, and its slots filled. -/
theorem FieldType.fills_encodeBinding :
    (type : FieldType) → (value : type.Value) →
      (name : String) → (path : Path) → (update : Update) →
      Fills (type.encode value name update)
        (type.FailsAt value name update) type.fieldCount
        (type.fill value path name)
        (type.fillFirst · value path name)
        (type.encodeBinding value name .filling path update)
  | .slot kind, slot, name, path, update =>
      FieldType.fills_slot kind slot name path update
  | .document schema, document, name, path, update => by
      have hInner :=
        (schema.fills_encodeBinding document (path.child name)
          (update.child name)).map (update.setChild name)
      have hEncode :
          FieldType.encode (.document schema) document name
              update =
            (schema.encode document
              (update.child name)).map
                (update.setChild name) := by
        rw [FieldType.encode]
        cases schema.encode document (update.child name) <;>
          rfl
      rw [hEncode, FieldType.encodeBinding]
      exact hInner
  | .table sorted key type, table, name, path, update => by
      have hSame :
          FieldType.encodeBinding (.table sorted key type)
              table name .filling path update =
            FieldType.encodeBinding (.table sorted key type)
              table name .keeping path update := by
        rfl
      rw [hSame, FieldType.encodeBinding_keeping]
      exact
        FieldType.fills_of_plain table name path update trivial
  | .int _, value, name, path, update
  | .text, value, name, path, update
  | .bool, value, name, path, update
  | .timestamp, value, name, path, update
  | .float32, value, name, path, update
  | .float64, value, name, path, update
  | .char, value, name, path, update
  | .list _, value, name, path, update
  | .array _ _, value, name, path, update =>
      FieldType.fills_of_plain value name path update trivial

/- A document is written as otherwise, and its slots filled. -/
theorem Schema.fills_encodeBinding :
    (schema : Schema) → (document : schema.Document) →
      (path : Path) → (update : Update) →
      Fills (schema.encode document update)
        (schema.FailsAt document update) schema.fieldCount
        (schema.fill document path)
        (schema.fillFirst · document path)
        (schema.encodeBinding document .filling path update)
  | .nil, document, path, update =>
      ⟨rfl, fun _ => ⟨rfl, fun _ _ => id⟩, nofun⟩
  | .stored field name type rest, (value, values), path,
    update =>
      Schema.fills_stored
        (type.fills_encodeBinding value name path update)
        (rest.fills_encodeBinding values path)
  | .skipped field type rest, (value, values), path,
    update => by
      rw [Schema.encode, Schema.encodeBinding]
      exact (rest.fills_encodeBinding values path
        update).within (value, ·)
  | .context field rest, (value, values), path,
    update => by
      rw [Schema.encode, Schema.encodeBinding]
      exact (rest.fills_encodeBinding values path
        update).within (value, ·)
end

------------------------------------------------------------
-- Documents
------------------------------------------------------------

namespace Schema

/- With its slots bound, a document is written as without. -/
theorem encodeDocumentBinding_eq
    (schema : Schema)
    (document : schema.Document)
    (root : Path) :
    let outcome :=
      schema.encodeBinding document .filling root .empty
    schema.encodeDocumentBinding document root =
      (outcome.1.map fun update =>
          ⟨update.within root.segments,
            schema.causalContext document⟩,
        outcome.2) := by
  intro outcome
  unfold encodeDocumentBinding
  simp only [Update.modifyAt_empty]
  change (outcome.1 >>= _, outcome.2) = _
  cases outcome.1 <;> rfl

/- What is written does not depend on bound slots. -/
theorem fst_encodeDocumentBinding
    (schema : Schema)
    (document : schema.Document)
    (root : Path) :
    (schema.encodeDocumentBinding document root).1 =
      schema.encodeDocument document root := by
  rw [encodeDocumentBinding_eq, encodeDocument_eq,
    (schema.fills_encodeBinding document root .empty).result]

/- Where a document can be written, all slots are bound. -/
theorem encodeDocumentBinding_eq_ok
    {schema : Schema}
    {document : schema.Document}
    {root : Path}
    {encoded : Encoded}
    (hEncode :
      schema.encodeDocument document root = .ok encoded) :
    schema.encodeDocumentBinding document root =
      (.ok encoded, schema.fill document root) := by
  refine Prod.ext ?_ ?_
  · rw [fst_encodeDocumentBinding, hEncode]
  · rcases eq_within_of_encodeDocument hEncode
      with ⟨update, hUpdate, _⟩
    rw [encodeDocumentBinding_eq]
    exact ((schema.fills_encodeBinding document root
      .empty).filled hUpdate).1

/-
  A document whose slots are to be bound is written as it is
  otherwise.  Then all its slots are filled but for those in
  tables; or, if it cannot be written, those in front of the
  one field that could not.
-/
theorem encodeDocumentBinding_fills
    (schema : Schema)
    (document : schema.Document)
    (root : Path) :
    let outcome := schema.encodeDocumentBinding document root
    outcome.1 = schema.encodeDocument document root ∧
    match schema.encodeDocument document root with
    | .ok _ => outcome.2 = schema.fill document root
    | .error failure =>
        ∃ index,
          outcome.2 = schema.fillFirst index document root ∧
          ∀ other,
            schema.FailsAt document .empty failure other ↔
              other = index := by
  intro outcome
  have hFills :=
    schema.fills_encodeBinding document root .empty
  have hOutcome :=
    schema.encodeDocumentBinding_eq document root
  simp only [hFills.result] at hOutcome
  rw [← encodeDocument_eq] at hOutcome
  have hBound :
      outcome.2 =
        (schema.encodeBinding document .filling root
          .empty).2 :=
    congrArg Prod.snd hOutcome
  refine ⟨congrArg Prod.fst hOutcome, ?_⟩
  rw [hBound, encodeDocument_eq]
  cases hEncode : schema.encode document .empty with
  | ok update => exact (hFills.filled hEncode).1
  | error failure =>
      rcases hFills.failed hEncode
        with ⟨index, _, hNew, hOnly⟩
      refine ⟨index, hNew, fun other => ?_⟩
      rw [hOnly]
      exact and_iff_right rfl

/- The slot in front of a failing field is filled only. -/
example :
    let inner : Schema :=
      .stored "m" "m" (.slot .flag)
        (.stored "x" "x" .char
          (.stored "p" "p" (.slot .flag) .nil))
    let schema : Schema :=
      .stored "in" "in" (.document inner)
        (.stored "n" "n" (.slot .counter) .nil)
    let root := Path.root ⟨"b", "t", "k"⟩
    let flag := Flag.bound ⟨root.child "in", "m", []⟩
    let outcome :=
      schema.encodeDocumentBinding schema.default root
    outcome.1 = .error (.codec (.unexpectedKind "x" "char")) ∧
    outcome.2 =
      ((some flag, FieldType.default .char, none, ()),
        none, ()) :=
  ⟨rfl, rfl⟩

end Schema

end CrdtDoc
