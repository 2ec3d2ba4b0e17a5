import CrdtDoc.Proofs.OverwritingReads
import CrdtDoc.Proofs.SlotFilling

/-
  This file shows that fields that are not stored do not show
  in what is stored.  A document is written as if it had no
  skipped fields and no context fields, at any depth; only
  its own last context field is handed over with the update,
  and none of the documents nested in it.  Reading changes no
  skipped field but those in the values of tables, which are
  made anew.

  Key definitions include:
    * `Schema.bare`
    * `Schema.strip`
    * `Schema.SameStored`
    * `Schema.contexts`
    * `Schema.Leaf.IsSkipped`

  Main declarations:
    * `Schema.encode_eq_strip`
    * `Schema.strip_eq_of_sameStored`
    * `Schema.part_decode_of_isSkipped`
    * `Schema.unstored_do_not_show`
-/

namespace CrdtDoc

------------------------------------------------------------
-- Stored Fields Only
------------------------------------------------------------

mutual
/- A type without any fields that are not stored. -/
def FieldType.bare : FieldType → FieldType
  | .document schema => .document schema.bare
  | .table sorted key value => .table sorted key value.bare
  | .int type => .int type
  | .text => .text
  | .bool => .bool
  | .timestamp => .timestamp
  | .float32 => .float32
  | .float64 => .float64
  | .char => .char
  | .slot kind => .slot kind
  | .list element => .list element
  | .array element length => .array element length

/- A schema without any fields that are not stored. -/
def Schema.bare : Schema → Schema
  | .nil => .nil
  | .stored field name type rest =>
      .stored field name type.bare rest.bare
  | .skipped _ _ rest => rest.bare
  | .context _ rest => rest.bare
end

/- A table with other values under the same keys. -/
def Table.mapValues
    {sorted : Bool}
    {key : KeyType}
    {α β : Type}
    (change : α → β)
    (table : Table sorted key α) : Table sorted key β :=
  ⟨table.entries.map fun entry => (entry.1, change entry.2),
    List.pairwise_map.mpr table.follows⟩

/- Other values may be put in before a fold or within it. -/
theorem Table.foldlM_mapValues
    {sorted : Bool}
    {key : KeyType}
    {α β σ ε : Type}
    {first : σ → key.Value × α → Except ε σ}
    {change : α → β}
    (second : σ → key.Value × β → Except ε σ)
    (hStep :
      ∀ state entry,
        first state entry =
          second state (entry.1, change entry.2))
    (table : Table sorted key α)
    (state : σ) :
    table.entries.foldlM first state =
      (table.mapValues change).entries.foldlM second
        state := by
  have hFirst :
      first = fun state entry =>
        second state (entry.1, change entry.2) :=
    funext₂ hStep
  rw [mapValues, List.foldlM_map, hFirst]

/- Tables whose values come to the same are the same then. -/
theorem Table.mapValues_eq
    {sorted : Bool}
    {key : KeyType}
    {α β : Type}
    {change : α → β}
    {first second : Table sorted key α}
    (hEntries :
      List.Forall₂
        (fun a b => a.1 = b.1 ∧ change a.2 = change b.2)
        first.entries second.entries) :
    first.mapValues change = second.mapValues change := by
  have hSame :
      first.entries.map
          (fun entry => (entry.1, change entry.2)) =
        second.entries.map
          (fun entry => (entry.1, change entry.2)) := by
    rw [← List.forall₂_eq_eq_eq, List.forall₂_map_left_iff,
      List.forall₂_map_right_iff]
    refine hEntries.imp ?_
    rintro a b ⟨hKey, hValue⟩
    exact Prod.ext hKey hValue
  simp only [mapValues, hSame]

mutual
/- A value with only the fields that are stored. -/
def FieldType.strip :
    (type : FieldType) → type.Value → type.bare.Value
  | .document schema, document => schema.strip document
  | .table _ _ type, table => Table.mapValues type.strip table
  | .int _, value => value
  | .text, value => value
  | .bool, value => value
  | .timestamp, value => value
  | .float32, value => value
  | .float64, value => value
  | .char, value => value
  | .slot _, slot => slot
  | .list _, items => items
  | .array _ _, items => items

/- A document with only the fields that are stored. -/
def Schema.strip :
    (schema : Schema) → schema.Document →
      schema.bare.Document
  | .nil, _ => ()
  | .stored _ _ type rest, (value, values) =>
      (type.strip value, rest.strip values)
  | .skipped _ _ rest, (_, values) => rest.strip values
  | .context _ rest, (_, values) => rest.strip values
end

mutual
/- A value is written as if it had stored fields only. -/
theorem FieldType.encode_eq_strip :
    (type : FieldType) → (value : type.Value) →
      (name : String) → (update : Update) →
      type.encode value name update =
        type.bare.encode (type.strip value) name update
  | .document schema, document, name, update => by
      have hInner :=
        schema.encode_eq_strip document (update.child name)
      rw [FieldType.encode, hInner]
      rfl
  | .table _ key type, table, name, update => by
      have hEntries :=
        Table.foldlM_mapValues
          (fun child entry =>
            type.bare.encode entry.2 (key.written entry.1)
              child)
          (fun child entry =>
            type.encode_eq_strip entry.2
              (key.written entry.1) child)
          table (update.child name)
      rw [FieldType.encode]
      exact congrArg
        (· >>= fun child => .ok (update.setChild name child))
        hEntries
  | .int _, _, _, _ | .text, _, _, _ | .bool, _, _, _
  | .timestamp, _, _, _ | .float32, _, _, _
  | .float64, _, _, _ | .char, _, _, _ | .slot _, _, _, _
  | .list _, _, _, _ | .array _ _, _, _, _ => rfl

/- A document is written as if it had stored fields only. -/
theorem Schema.encode_eq_strip :
    (schema : Schema) → (document : schema.Document) →
      (update : Update) →
      schema.encode document update =
        schema.bare.encode (schema.strip document) update
  | .nil, _, _ => rfl
  | .stored _ name type rest, (value, values), update => by
      have hRest : rest.encode values =
          rest.bare.encode (rest.strip values) :=
        funext (rest.encode_eq_strip values)
      rw [Schema.encode, type.encode_eq_strip, hRest]
      rfl
  | .skipped _ _ rest, (_, values), update =>
      rest.encode_eq_strip values update
  | .context _ rest, (_, values), update =>
      rest.encode_eq_strip values update
end

------------------------------------------------------------
-- Documents With the Same Stored Fields
------------------------------------------------------------

mutual
/-
  Two values are the same but for the fields of documents
  that are not stored, at any depth.  Tables list the same
  keys in the same order.
-/
def FieldType.SameStored :
    (type : FieldType) → type.Value → type.Value → Prop
  | .document schema, first, second =>
      schema.SameStored first second
  | .table _ _ type, first, second =>
      List.Forall₂
        (fun a b => a.1 = b.1 ∧ type.SameStored a.2 b.2)
        (Table.entries first) (Table.entries second)
  | _, first, second => first = second

/- Two documents are the same but for unstored fields. -/
def Schema.SameStored :
    (schema : Schema) → schema.Document → schema.Document →
      Prop
  | .nil, _, _ => True
  | .stored _ _ type rest, first, second =>
      type.SameStored first.1 second.1 ∧
      rest.SameStored first.2 second.2
  | .skipped _ _ rest, first, second =>
      rest.SameStored first.2 second.2
  | .context _ rest, first, second =>
      rest.SameStored first.2 second.2
end

mutual
/- With stored fields only, the two values are the same. -/
theorem FieldType.strip_eq_of_sameStored :
    (type : FieldType) → {first second : type.Value} →
      type.SameStored first second →
      type.strip first = type.strip second
  | .document schema, _, _, hSame =>
      schema.strip_eq_of_sameStored hSame
  | .table _ key type, first, second, hSame => by
      apply Table.mapValues_eq
      refine List.Forall₂.imp ?_ hSame
      rintro a b ⟨hKey, hValue⟩
      exact ⟨hKey, type.strip_eq_of_sameStored hValue⟩
  | .int _, _, _, hSame | .text, _, _, hSame
  | .bool, _, _, hSame | .timestamp, _, _, hSame
  | .float32, _, _, hSame | .float64, _, _, hSame
  | .char, _, _, hSame | .slot _, _, _, hSame
  | .list _, _, _, hSame | .array _ _, _, _, hSame => hSame

/- With stored fields only, the documents are the same. -/
theorem Schema.strip_eq_of_sameStored :
    (schema : Schema) → {first second : schema.Document} →
      schema.SameStored first second →
      schema.strip first = schema.strip second
  | .nil, _, _, _ => rfl
  | .stored _ _ type rest, (_, _), (_, _),
    ⟨hValue, hRest⟩ =>
      congrArg₂ Prod.mk (type.strip_eq_of_sameStored hValue)
        (rest.strip_eq_of_sameStored hRest)
  | .skipped _ _ rest, (_, _), (_, _), hSame =>
      rest.strip_eq_of_sameStored hSame
  | .context _ rest, (_, _), (_, _), hSame =>
      rest.strip_eq_of_sameStored hSame
end

namespace Schema

/- The bytes of a document's own context fields in order. -/
def contexts :
    (schema : Schema) → schema.Document → List Bytes
  | .nil, _ => []
  | .stored _ _ _ rest, (_, values) => rest.contexts values
  | .skipped _ _ rest, (_, values) => rest.contexts values
  | .context _ rest, (bytes, values) =>
      bytes :: rest.contexts values

/- The causal context is the last of the context fields. -/
theorem lastContext?_eq_getLast? :
    (schema : Schema) → (document : schema.Document) →
      schema.lastContext? document =
        (schema.contexts document).getLast?
  | .nil, _ => rfl
  | .stored _ _ _ rest, (_, values) =>
      rest.lastContext?_eq_getLast? values
  | .skipped _ _ rest, (_, values) =>
      rest.lastContext?_eq_getLast? values
  | .context _ rest, (bytes, values) => by
      rw [lastContext?, contexts, List.getLast?_cons,
        rest.lastContext?_eq_getLast? values]
      cases (rest.contexts values).getLast? <;> rfl

/-
  A document is written as with stored fields only, and has
  the context of the last of its own context fields.
-/
theorem encodeDocument_eq_strip
    (schema : Schema)
    (document : schema.Document)
    (root : Path) :
    schema.encodeDocument document root =
      (schema.bare.encodeDocument (schema.strip document)
        root).map fun encoded =>
          { encoded with
            context :=
              (schema.contexts document).getLast?.getD
                [] } := by
  rw [encodeDocument_eq, encodeDocument_eq,
    schema.encode_eq_strip, causalContext,
    schema.lastContext?_eq_getLast?]
  cases schema.bare.encode (schema.strip document) .empty <;>
    rfl

end Schema

------------------------------------------------------------
-- Skipped Fields That Are Kept
------------------------------------------------------------

mutual
/- Is a leaf a skipped field of a nested document? -/
def FieldType.Leaf.IsSkipped :
    {type : FieldType} → FieldType.Leaf type → Prop
  | _, .self _ => False
  | _, .within leaf => leaf.IsSkipped

/- Is a leaf a skipped field, at any depth? -/
def Schema.Leaf.IsSkipped :
    {schema : Schema} → Schema.Leaf schema → Prop
  | _, .stored leaf => leaf.IsSkipped
  | _, .skipped => True
  | _, .context => False
  | _, .behindStored leaf => leaf.IsSkipped
  | _, .behindSkipped leaf => leaf.IsSkipped
  | _, .behindContext leaf => leaf.IsSkipped
end

mutual
/- Reading a value keeps its skipped fields. -/
theorem FieldType.part_decode_of_isSkipped :
    {type : FieldType} → (leaf : FieldType.Leaf type) →
      leaf.IsSkipped →
      (name : String) → (source : Source) →
      (old : type.Value) →
      leaf.part (type.decode name source old).2 =
        leaf.part old
  | _, .self _, hSkipped, _, _, _ => hSkipped.elim
  | .document schema, .within leaf, hSkipped, name, source,
    old => by
      cases hChild : source.child? name with
      | none =>
          rw [FieldType.decode_document_none hChild]
      | some child =>
          rw [FieldType.decode_document_some hChild]
          exact Schema.part_decode_of_isSkipped leaf hSkipped
            child old

/- Reading a document keeps its skipped fields. -/
theorem Schema.part_decode_of_isSkipped :
    {schema : Schema} → (leaf : Schema.Leaf schema) →
      leaf.IsSkipped →
      (source : Source) → (old : schema.Document) →
      leaf.part (schema.decode source old).2 =
        leaf.part old
  | .stored _ name _ _, .stored leaf, hSkipped, source,
    (value, values) => by
      have hValue :=
        FieldType.part_decode_of_isSkipped leaf hSkipped name
          source value
      rw [← Schema.field_decode_stored source value values]
        at hValue
      exact congrArg (·, ()) hValue
  | .stored _ name type _, .behindStored leaf, hSkipped,
    source, (value, values) => by
      rw [Schema.decode]
      rcases type.decode name source value
        with ⟨reason | done, new⟩
      · rfl
      · exact Schema.part_decode_of_isSkipped leaf hSkipped
          source values
  | _, .skipped, _, _, _ => rfl
  | _, .behindSkipped leaf, hSkipped, source, old =>
      Schema.part_decode_of_isSkipped leaf hSkipped source
        old.2
  | _, .behindContext leaf, hSkipped, source, old =>
      Schema.part_decode_of_isSkipped leaf hSkipped source
        old.2
end

------------------------------------------------------------
-- What Does Not Show
------------------------------------------------------------

namespace Schema

/-
  Documents with the same stored fields and the same context
  fields of their own are written alike, or fail alike.  Each
  is written as with its stored fields only, and has the last
  of its own context fields as context.  Whether a document
  can be read or not, its skipped fields stay as they were.
-/
theorem unstored_do_not_show
    (schema : Schema)
    (root : Path) :
    (∀ first second,
      schema.SameStored first second →
      schema.contexts first = schema.contexts second →
      schema.encodeDocument first root =
        schema.encodeDocument second root ∧
      (schema.encodeDocumentBinding first root).1 =
        (schema.encodeDocumentBinding second root).1) ∧
    (∀ document,
      schema.encodeDocument document root =
        (schema.bare.encodeDocument (schema.strip document)
          root).map fun encoded =>
            { encoded with
              context :=
                (schema.contexts document).getLast?.getD
                  [] }) ∧
    ∀ map context old (leaf : Schema.Leaf schema),
      leaf.IsSkipped →
      leaf.part
          (schema.decodeDocument map context root old).2 =
        leaf.part old := by
  refine ⟨?_, (schema.encodeDocument_eq_strip · root), ?_⟩
  · intro first second hSame hContexts
    have hEncode :
        schema.encodeDocument first root =
          schema.encodeDocument second root := by
      rw [schema.encodeDocument_eq_strip first,
        schema.encodeDocument_eq_strip second,
        schema.strip_eq_of_sameStored hSame, hContexts]
    rw [fst_encodeDocumentBinding, fst_encodeDocumentBinding]
    exact ⟨hEncode, hEncode⟩
  · intro map context old leaf hSkipped
    exact part_decode_of_isSkipped leaf hSkipped _ old

/-
  Skipped and context fields of a nested document and of one
  in a table, and a register with the name of a skipped one.
-/
theorem unstored_do_not_show_nested :
    let inner : Schema :=
      .skipped "s" .text
        (.context "c" (.stored "on" "on" .bool .nil))
    let schema : Schema :=
      .context "a"
        (.stored "in" "in" (.document inner)
          (.stored "m" "m"
            (.table false .text (.document inner))
            (.context "b" .nil)))
    let document (text : String) (bytes : Bytes) :
        schema.Document :=
      ([1], (text, bytes, true, ()),
        (Table.empty.insert "x" (text, bytes, false, ()) :
          Table false .text inner.Document), [2], ())
    let first := document "left" [3]
    let second := document "right" [4]
    let map : CrdtMap :=
      { CrdtMap.empty with
        maps :=
          [("in",
            { CrdtMap.empty with
              registers := [("s", [0x61])] })] }
    let leaf : Schema.Leaf schema :=
      .behindContext (.stored (.within .skipped))
    let root := Path.root ⟨"b", "t", "k"⟩
    schema.SameStored first second ∧
    schema.contexts first = schema.contexts second ∧
    schema.encodeDocument first root =
      schema.encodeDocument second root ∧
    (schema.encodeDocument first root).map Encoded.context =
      .ok [2] ∧
    leaf.IsSkipped ∧
    leaf.part (schema.decodeDocument map [5] root first).2 =
      leaf.part first := by
  intro inner schema document first second map leaf root
  have hSame : schema.SameStored first second :=
    ⟨⟨rfl, trivial⟩,
      .cons ⟨rfl, rfl, trivial⟩ .nil, trivial⟩
  have hShow := schema.unstored_do_not_show root
  refine ⟨hSame, rfl, (hShow.1 first second hSame rfl).1, ?_,
    trivial, hShow.2.2 map [5] first leaf trivial⟩
  rw [hShow.2.1 first]
  rfl

end Schema

end CrdtDoc
