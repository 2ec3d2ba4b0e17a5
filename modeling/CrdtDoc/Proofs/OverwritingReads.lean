import CrdtDoc.Proofs.LeafReading

/-
  This file shows that what is read does not depend on what
  it is read over.  Reading comes to the same result for
  every old document.  A leaf either keeps what it was, in
  all of them, or gets one new value that is the same in all
  of them.  So reading again changes nothing any more.

  Key definitions include:
    * `Reading.IsUniform`
    * `Reading.Overwrites`
    * `Reading.OverwritesAll`

  Main declarations:
    * `Schema.eq_of_parts`
    * `Reading.Overwrites.again`
    * `Schema.exists_overwrites`
    * `Schema.decodeDocument_overwrites_alike`
-/

namespace CrdtDoc

------------------------------------------------------------
-- Documents and Their Leaves
------------------------------------------------------------

mutual
/- Values with the same leaves are the same. -/
theorem FieldType.eq_of_parts :
    (type : FieldType) → {value other : type.Value} →
      (∀ leaf : FieldType.Leaf type,
        leaf.part value = leaf.part other) →
      value = other
  | .document schema, _, _, hParts =>
      schema.eq_of_parts fun leaf => hParts (.within leaf)
  | .int _, _, _, hParts | .text, _, _, hParts
  | .bool, _, _, hParts | .timestamp, _, _, hParts
  | .float32, _, _, hParts | .float64, _, _, hParts
  | .char, _, _, hParts | .slot _, _, _, hParts
  | .list _, _, _, hParts | .array _ _, _, _, hParts
  | .table _ _ _, _, _, hParts => hParts (.self trivial)

/- Documents with the same leaves are the same. -/
theorem Schema.eq_of_parts :
    (schema : Schema) → {document other : schema.Document} →
      (∀ leaf : Schema.Leaf schema,
        leaf.part document = leaf.part other) →
      document = other
  | .nil, _, _, _ => rfl
  | .stored _ _ type rest, (_, _), (_, _), hParts =>
      Prod.ext
        (type.eq_of_parts fun leaf =>
          congrArg Prod.fst (hParts (.stored leaf)))
        (rest.eq_of_parts fun leaf =>
          hParts (.behindStored leaf))
  | .skipped _ type rest, (_, _), (_, _), hParts =>
      Prod.ext
        (congrArg (Prod.fst : type.Value × Unit → type.Value)
          (hParts .skipped))
        (rest.eq_of_parts fun leaf =>
          hParts (.behindSkipped leaf))
  | .context _ rest, (_, _), (_, _), hParts =>
      Prod.ext
        (congrArg (Prod.fst : Bytes × Unit → Bytes)
          (hParts .context))
        (rest.eq_of_parts fun leaf =>
          hParts (.behindContext leaf))
end

------------------------------------------------------------
-- Overwriting
------------------------------------------------------------

namespace Reading

/-
  A part of an old value is kept, whatever it is, or a new
  one takes its place that is the same in any case.
-/
def IsUniform
    {α β : Type}
    (part : α → β)
    (read : α → Reading α) : Prop :=
  (∀ old, part (read old).2 = part old) ∨
  ∃ new, ∀ old, part (read old).2 = new

/-
  Reading has one result for all old values, and each part
  of them is kept, or replaced alike.
-/
structure Overwrites
    {α ι : Type}
    {β : ι → Type}
    (part : (i : ι) → α → β i)
    (read : α → Reading α)
    (result : Except CodecError Unit) : Prop where
  result : ∀ old, (read old).1 = result
  parts : ∀ i, IsUniform (part i) read

section Parts

variable {α β γ δ : Type}

/- What is uniform in a component is so in the whole. -/
theorem IsUniform.of_component
    {part : β → γ}
    {read : β → Reading β}
    (hUniform : IsUniform part read)
    {whole : α → Reading α}
    {component : α → β}
    (hWhole :
      ∀ old,
        component (whole old).2 = (read (component old)).2)
    (make : γ → δ) :
    IsUniform (fun old => make (part (component old)))
      whole := by
  rcases hUniform with hKeeps | ⟨new, hPuts⟩
  · refine Or.inl fun old => congrArg make ?_
    rw [hWhole, hKeeps]
  · refine Or.inr ⟨make new, fun old => congrArg make ?_⟩
    rw [hWhole, hPuts]

variable {ι : Type} {φ : ι → Type}
variable {part : (i : ι) → α → φ i} {read : α → Reading α}
variable {result : Except CodecError Unit}

/- Each part of two old values is overwritten alike. -/
theorem Overwrites.alike
    (hOverwrites : Overwrites part read result)
    (first second : α)
    (i : ι) :
    (part i (read first).2 = part i first ∧
      part i (read second).2 = part i second) ∨
    part i (read first).2 = part i (read second).2 := by
  rcases hOverwrites.parts i with hKeeps | ⟨new, hPuts⟩
  · exact Or.inl ⟨hKeeps first, hKeeps second⟩
  · exact Or.inr ((hPuts first).trans (hPuts second).symm)

/- Reading over what was read before changes nothing. -/
theorem Overwrites.again
    (hOverwrites : Overwrites part read result)
    (hExt :
      ∀ {value other},
        (∀ i, part i value = part i other) → value = other)
    (old : α) :
    read (read old).2 = read old := by
  refine Prod.ext ?_ (hExt fun i => ?_)
  · rw [hOverwrites.result, hOverwrites.result]
  · rcases hOverwrites.parts i with hKeeps | ⟨new, hPuts⟩
    · exact hKeeps (read old).2
    · rw [hPuts (read old).2, hPuts old]

end Parts

/- Reading keeps any old value, or puts one in its place. -/
inductive OverwritesAll
    {α : Type}
    (read : α → Reading α)
    (result : Except CodecError Unit) : Prop where
  | keeps
      (hRead : ∀ old, read old = (result, old))
  | puts
      (new : α)
      (hRead : ∀ old, read old = (result, new))

variable {α : Type}

/- A new value is put if there is one. -/
theorem overwritesAll_orKeep
    (new? : Option α) :
    OverwritesAll (fun old => orKeep old new?) (.ok ()) := by
  cases new? with
  | none => exact .keeps fun _ => rfl
  | some new => exact .puts new fun _ => rfl

/- A new value is put unless there is an error. -/
theorem exists_overwritesAll_replace
    (new : Except CodecError α) :
    ∃ result,
      OverwritesAll (fun old => replace old new) result := by
  cases new with
  | error error => exact ⟨.error error, .keeps fun _ => rfl⟩
  | ok new => exact ⟨.ok (), .puts new fun _ => rfl⟩

/- An old value that is not replaced is kept. -/
theorem overwritesAll_replace_ok :
    OverwritesAll (fun old : α => replace old (.ok old))
      (.ok ()) :=
  .keeps fun _ => rfl

end Reading

------------------------------------------------------------
-- Leaves
------------------------------------------------------------

namespace Source

/- A point in time is kept if there is no register. -/
theorem exists_overwritesAll_timestamp
    (source : Source)
    (name : String) :
    ∃ result,
      Reading.OverwritesAll
        (fun old =>
          Reading.replace old (source.timestamp name old))
        result := by
  unfold timestamp
  cases source.map.register? name with
  | none => exact ⟨_, Reading.overwritesAll_replace_ok⟩
  | some bytes =>
      exact Reading.exists_overwritesAll_replace _

/- A list is kept if it has no register or set. -/
theorem exists_overwritesAll_items
    (source : Source)
    (name : String)
    (element : Element) :
    ∃ result,
      Reading.OverwritesAll
        (fun old =>
          Reading.replace old (source.items name element old))
        result := by
  unfold items
  cases element.shape with
  | byte =>
      cases source.map.register? name with
      | none => exact ⟨_, Reading.overwritesAll_replace_ok⟩
      | some bytes =>
          exact Reading.exists_overwritesAll_replace
            (.ok (element.listOf bytes))
  | scalar | nested =>
      cases source.map.set? name with
      | none => exact ⟨_, Reading.overwritesAll_replace_ok⟩
      | some members =>
          exact Reading.exists_overwritesAll_replace _
  | unsupported =>
      exact Reading.exists_overwritesAll_replace
        (.error (.unknownKind name element.name))

/- An array is kept if there is no register that fits. -/
theorem exists_overwritesAll_array
    (source : Source)
    (name : String)
    (element : Element)
    (length : Nat) :
    ∃ result,
      Reading.OverwritesAll
        (fun old =>
          Reading.replace old
            (source.array name element length old))
        result := by
  unfold array
  by_cases hLength : length = 0
  · simp only [if_pos hLength]
    exact ⟨_, Reading.overwritesAll_replace_ok⟩
  · by_cases hShape : element.shape = .byte
    · simp only [if_neg hLength, ne_eq, hShape,
        not_true_eq_false, if_false]
      exact ⟨_, Reading.overwritesAll_orKeep
        ((source.map.register? name).bind
          (element.arrayOf? length))⟩
    · simp only [if_neg hLength, ne_eq, hShape,
        not_false_eq_true, if_true]
      exact Reading.exists_overwritesAll_replace
        (.error (.arrayElement name element.name))

end Source

/- A leaf is kept as a whole, or replaced as a whole. -/
theorem FieldType.IsLeaf.exists_overwritesAll
    {type : FieldType}
    (hLeaf : type.IsLeaf)
    (name : String)
    (source : Source) :
    ∃ result,
      Reading.OverwritesAll (type.decode name source)
        result := by
  cases type with
  | document schema => exact hLeaf.elim
  | int type =>
      exact ⟨_, Reading.overwritesAll_orKeep
        ((source.map.register? name).bind
          (Integer.decode? type))⟩
  | text =>
      exact ⟨_, Reading.overwritesAll_orKeep
        ((source.map.register? name).bind Text.decode?)⟩
  | bool =>
      exact ⟨_, Reading.overwritesAll_orKeep
        (source.map.flag? name)⟩
  | timestamp =>
      exact source.exists_overwritesAll_timestamp name
  | float32 => exact ⟨_, .keeps fun _ => rfl⟩
  | float64 => exact ⟨_, .keeps fun _ => rfl⟩
  | char => exact ⟨_, .keeps fun _ => rfl⟩
  | slot kind => exact ⟨_, .puts _ fun _ => rfl⟩
  | list element =>
      exact source.exists_overwritesAll_items name element
  | array element length =>
      exact source.exists_overwritesAll_array name element
        length
  | table sorted key value =>
      cases hChild : source.child? name with
      | none =>
          refine ⟨.ok (), .keeps fun old => ?_⟩
          rw [FieldType.decode, hChild]
          rfl
      | some child =>
          rcases Reading.exists_overwritesAll_replace
            (child.table name sorted key value
              fun entry => value.decode entry child)
            with ⟨result, hReplace⟩
          refine ⟨result, ?_⟩
          have hDecode :
              FieldType.decode (.table sorted key value) name
                  source =
                fun old => Reading.replace old
                  (child.table name sorted key value
                    fun entry => value.decode entry child) := by
            funext old
            rw [FieldType.decode, hChild]
            rfl
          exact hDecode ▸ hReplace

/- A value that is a leaf has no other part than itself. -/
theorem FieldType.IsLeaf.exists_overwrites
    {type : FieldType}
    (hLeaf : type.IsLeaf)
    (name : String)
    (source : Source) :
    ∃ result,
      Reading.Overwrites
        (fun leaf : FieldType.Leaf type => leaf.part)
        (type.decode name source) result := by
  rcases hLeaf.exists_overwritesAll name source
    with ⟨result, hAll⟩
  refine ⟨result, ?_, ?_⟩
  · intro old
    cases hAll with
    | keeps hRead => rw [hRead]
    | puts new hRead => rw [hRead]
  · intro leaf
    cases hAll with
    | keeps hRead =>
        refine Or.inl fun old => ?_
        rw [hRead]
    | puts new hRead =>
        refine Or.inr ⟨leaf.part new, fun old => ?_⟩
        rw [hRead]

------------------------------------------------------------
-- Documents
------------------------------------------------------------

/- A stored field is read as if it were the only one. -/
theorem Schema.field_decode_stored
    {field name : String}
    {type : FieldType}
    {rest : Schema}
    (source : Source)
    (value : type.Value)
    (values : rest.Document) :
    (Schema.decode (.stored field name type rest) source
        (value, values)).2.1 =
      (type.decode name source value).2 := by
  rw [Schema.decode]
  rcases type.decode name source value
    with ⟨reason | done, new⟩ <;> rfl

/-
  A stored field is overwritten, and then those behind it,
  unless it cannot be read.
-/
theorem Schema.exists_overwrites_stored
    {field name : String}
    {type : FieldType}
    {rest : Schema}
    {source : Source}
    {first second : Except CodecError Unit}
    (hFirst :
      Reading.Overwrites
        (fun leaf : FieldType.Leaf type => leaf.part)
        (type.decode name source) first)
    (hSecond :
      Reading.Overwrites
        (fun leaf : Schema.Leaf rest => leaf.part)
        (rest.decode source) second) :
    ∃ result,
      Reading.Overwrites
        (fun leaf :
          Schema.Leaf (.stored field name type rest) =>
            leaf.part)
        (Schema.decode (.stored field name type rest) source)
        result := by
  have hField :
      ∀ leaf : FieldType.Leaf type,
        Reading.IsUniform
          (Schema.Leaf.stored leaf).part
          (Schema.decode (.stored field name type rest)
            source) := by
    intro leaf
    refine (hFirst.parts leaf).of_component ?_ (·, ())
    exact fun (value, values) =>
      Schema.field_decode_stored source value values
  cases first with
  | error error =>
      have hDecode :
          ∀ value values,
            Schema.decode (.stored field name type rest)
                source (value, values) =
              (.error error,
                (type.decode name source value).2, values) :=
        fun value values =>
          Schema.decode_stored_of_error
            (Prod.ext (hFirst.result value) rfl) values
      refine ⟨.error error, ?_, ?_⟩
      · intro (value, values)
        rw [hDecode]
      · intro leaf
        cases leaf with
        | stored leaf => exact hField leaf
        | behindStored leaf =>
            refine Or.inl fun (value, values) => ?_
            rw [hDecode]
            rfl
  | ok done =>
      have hDecode :
          ∀ value values,
            Schema.decode (.stored field name type rest)
                source (value, values) =
              ((rest.decode source values).1,
                (type.decode name source value).2,
                (rest.decode source values).2) := by
        intro value values
        have hValue :
            type.decode name source value =
              (.ok (), (type.decode name source value).2) :=
          Prod.ext (hFirst.result value) rfl
        rw [Schema.decode, hValue]
        rfl
      refine ⟨second, ?_, ?_⟩
      · intro (value, values)
        rw [hDecode]
        exact hSecond.result values
      · intro leaf
        cases leaf with
        | stored leaf => exact hField leaf
        | behindStored leaf =>
            refine (hSecond.parts leaf).of_component ?_ id
            intro (value, values)
            rw [hDecode]

mutual
/- Reading a value overwrites any old one alike. -/
theorem FieldType.exists_overwrites :
    (type : FieldType) → (name : String) →
      (source : Source) →
      ∃ result,
        Reading.Overwrites
          (fun leaf : FieldType.Leaf type => leaf.part)
          (type.decode name source) result
  | .document schema, name, source => by
      cases hChild : source.child? name with
      | none =>
          have hDecode :
              FieldType.decode (.document schema) name
                  source =
                Reading.done :=
            funext (FieldType.decode_document_none hChild)
          rw [hDecode]
          exact ⟨.ok (), fun _ => rfl,
            fun _ => Or.inl fun _ => rfl⟩
      | some child =>
          have hDecode :
              FieldType.decode (.document schema) name
                  source =
                schema.decode child :=
            funext (FieldType.decode_document_some hChild)
          rcases schema.exists_overwrites child
            with ⟨result, hSchema⟩
          rw [hDecode]
          refine ⟨result, hSchema.result, ?_⟩
          intro leaf
          cases leaf with
          | self hLeaf => exact hLeaf.elim
          | within leaf => exact hSchema.parts leaf
  | .int _, name, source | .text, name, source
  | .bool, name, source | .timestamp, name, source
  | .float32, name, source | .float64, name, source
  | .char, name, source | .slot _, name, source
  | .list _, name, source | .array _ _, name, source
  | .table _ _ _, name, source =>
      FieldType.IsLeaf.exists_overwrites (by trivial) name
        source

/- Reading a document overwrites any old one alike. -/
theorem Schema.exists_overwrites :
    (schema : Schema) → (source : Source) →
      ∃ result,
        Reading.Overwrites
          (fun leaf : Schema.Leaf schema => leaf.part)
          (schema.decode source) result
  | .nil, source => ⟨.ok (), fun _ => rfl, nofun⟩
  | .stored _ name type rest, source => by
      rcases type.exists_overwrites name source
        with ⟨first, hFirst⟩
      rcases rest.exists_overwrites source
        with ⟨second, hSecond⟩
      exact Schema.exists_overwrites_stored hFirst hSecond
  | .skipped _ type rest, source => by
      rcases rest.exists_overwrites source
        with ⟨result, hRest⟩
      refine ⟨result, fun old => hRest.result old.2, ?_⟩
      intro leaf
      cases leaf with
      | skipped => exact Or.inl fun _ => rfl
      | behindSkipped leaf =>
          exact (hRest.parts leaf).of_component
            (fun _ => rfl) id
  | .context _ rest, source => by
      rcases rest.exists_overwrites source
        with ⟨result, hRest⟩
      refine ⟨result, fun old => hRest.result old.2, ?_⟩
      intro leaf
      cases leaf with
      | context =>
          exact Or.inr ⟨(source.context, ()), fun _ => rfl⟩
      | behindContext leaf =>
          exact (hRest.parts leaf).of_component
            (fun _ => rfl) id
end

/-
  A document is read with the same result over any two old
  ones.  Each leaf is kept in both of them, or is the same
  in both afterwards.  Reading a second time comes to what
  reading once does.
-/
theorem Schema.decodeDocument_overwrites_alike
    (schema : Schema)
    (map : CrdtMap)
    (context : Bytes)
    (root : Path)
    (first second : schema.Document) :
    let read := schema.decodeDocument map context root
    (read first).1 = (read second).1 ∧
    (∀ leaf : Schema.Leaf schema,
      (leaf.part (read first).2 = leaf.part first ∧
        leaf.part (read second).2 = leaf.part second) ∨
      leaf.part (read first).2 =
        leaf.part (read second).2) ∧
    read (read first).2 = read first := by
  intro read
  let source : Source :=
    ⟨(map.at? root.segments).getD .empty, root, context⟩
  rcases schema.exists_overwrites source
    with ⟨result, hOverwrites⟩
  refine ⟨?_, hOverwrites.alike first second,
    hOverwrites.again schema.eq_of_parts first⟩
  exact (hOverwrites.result first).trans
    (hOverwrites.result second).symm

end CrdtDoc
