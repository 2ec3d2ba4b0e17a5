import CrdtDoc.Proofs.EntryReading
import Mathlib.Data.List.Nodup

/-
  This file shows how far a document is read that cannot be
  read as a whole.

  The leaves of a document are its fields and those of the
  documents nested in it, in the order of their declaration.
  A list, an array, a table or a point in time is one leaf,
  and so is a field that is skipped or has the context.
  Reading a document reads each leaf as if there were no
  other one, up to the first that cannot be read.

  Key definitions include:
    * `Schema.Leaf`
    * `Schema.leaves`
    * `Schema.Leaf.alone`
    * `Schema.Leaf.part`
    * `Schema.Leaf.Reads`

  Main declarations:
    * `Schema.mem_leaves`
    * `Schema.reads_of_decode`
    * `Schema.stopsIn_of_decode`
    * `Schema.stopsIn_of_decodeDocument`
-/

namespace CrdtDoc

------------------------------------------------------------
-- Leaves
------------------------------------------------------------

/- Is a type any but that of nested documents? -/
def FieldType.IsLeaf : FieldType → Prop
  | .document _ => False
  | _ => True

mutual
/- A leaf of a value: itself, or one of a document. -/
inductive FieldType.Leaf : FieldType → Type where
  | self
      {type : FieldType}
      (hLeaf : type.IsLeaf) :
      FieldType.Leaf type
  | within
      {schema : Schema}
      (leaf : Schema.Leaf schema) :
      FieldType.Leaf (.document schema)

/- A leaf of a document: of one of its fields. -/
inductive Schema.Leaf : Schema → Type where
  | stored
      {field name : String}
      {type : FieldType}
      {rest : Schema}
      (leaf : FieldType.Leaf type) :
      Schema.Leaf (.stored field name type rest)
  | skipped
      {field : String}
      {type : FieldType}
      {rest : Schema} :
      Schema.Leaf (.skipped field type rest)
  | context
      {field : String}
      {rest : Schema} :
      Schema.Leaf (.context field rest)
  | behindStored
      {field name : String}
      {type : FieldType}
      {rest : Schema}
      (leaf : Schema.Leaf rest) :
      Schema.Leaf (.stored field name type rest)
  | behindSkipped
      {field : String}
      {type : FieldType}
      {rest : Schema}
      (leaf : Schema.Leaf rest) :
      Schema.Leaf (.skipped field type rest)
  | behindContext
      {field : String}
      {rest : Schema}
      (leaf : Schema.Leaf rest) :
      Schema.Leaf (.context field rest)
end

mutual
/- The leaves of a value in their order. -/
def FieldType.leaves :
    (type : FieldType) → List (FieldType.Leaf type)
  | .document schema => schema.leaves.map .within
  | .int _ | .text | .bool | .timestamp | .float32 | .float64
  | .char | .slot _ | .list _ | .array _ _
  | .table _ _ _ => [.self trivial]

/- The leaves of a document in their order. -/
def Schema.leaves :
    (schema : Schema) → List (Schema.Leaf schema)
  | .nil => []
  | .stored _ _ type rest =>
      type.leaves.map .stored ++ rest.leaves.map .behindStored
  | .skipped _ _ rest =>
      .skipped :: rest.leaves.map .behindSkipped
  | .context _ rest =>
      .context :: rest.leaves.map .behindContext
end

mutual
/- The type that has only one of the leaves. -/
def FieldType.Leaf.alone :
    {type : FieldType} → FieldType.Leaf type → FieldType
  | type, .self _ => type
  | _, .within leaf => .document leaf.alone

/- The schema that has only one of the leaves. -/
def Schema.Leaf.alone :
    {schema : Schema} → Schema.Leaf schema → Schema
  | .stored field name _ _, .stored leaf =>
      .stored field name leaf.alone .nil
  | .skipped field type _, .skipped =>
      .skipped field type .nil
  | .context field _, .context => .context field .nil
  | _, .behindStored leaf => leaf.alone
  | _, .behindSkipped leaf => leaf.alone
  | _, .behindContext leaf => leaf.alone
end

mutual
/- The value with only one of its leaves. -/
def FieldType.Leaf.part :
    {type : FieldType} → (leaf : FieldType.Leaf type) →
      type.Value → leaf.alone.Value
  | _, .self _, value => value
  | _, .within leaf, document => leaf.part document

/- The document with only one of its leaves. -/
def Schema.Leaf.part :
    {schema : Schema} → (leaf : Schema.Leaf schema) →
      schema.Document → leaf.alone.Document
  | _, .stored leaf, (value, _) => (leaf.part value, ())
  | _, .skipped, (value, _) => (value, ())
  | _, .context, (bytes, _) => (bytes, ())
  | _, .behindStored leaf, (_, values) => leaf.part values
  | _, .behindSkipped leaf, (_, values) => leaf.part values
  | _, .behindContext leaf, (_, values) => leaf.part values
end

------------------------------------------------------------
-- The Order of Leaves
------------------------------------------------------------

mutual
/- Every leaf of a value is among its leaves. -/
theorem FieldType.mem_leaves :
    {type : FieldType} → (leaf : FieldType.Leaf type) →
      leaf ∈ type.leaves
  | _, .within leaf =>
      List.mem_map_of_mem (Schema.mem_leaves leaf)
  | type, .self hLeaf => by
      cases type with
      | document schema => exact hLeaf.elim
      | _ => exact List.mem_singleton_self _

/- Every leaf of a document is among its leaves. -/
theorem Schema.mem_leaves :
    {schema : Schema} → (leaf : Schema.Leaf schema) →
      leaf ∈ schema.leaves
  | _, .stored leaf =>
      List.mem_append_left _
        (List.mem_map_of_mem (FieldType.mem_leaves leaf))
  | _, .skipped => List.mem_cons_self
  | _, .context => List.mem_cons_self
  | _, .behindStored leaf =>
      List.mem_append_right _
        (List.mem_map_of_mem (Schema.mem_leaves leaf))
  | _, .behindSkipped leaf =>
      List.mem_cons_of_mem _
        (List.mem_map_of_mem (Schema.mem_leaves leaf))
  | _, .behindContext leaf =>
      List.mem_cons_of_mem _
        (List.mem_map_of_mem (Schema.mem_leaves leaf))
end

mutual
/- The leaves of a value are each listed once. -/
theorem FieldType.nodup_leaves :
    (type : FieldType) → type.leaves.Nodup
  | .document schema =>
      schema.nodup_leaves.map fun _ _ hEq =>
        FieldType.Leaf.within.inj hEq
  | .int _ | .text | .bool | .timestamp | .float32 | .float64
  | .char | .slot _ | .list _ | .array _ _
  | .table _ _ _ => List.nodup_singleton _

/- The leaves of a document are each listed once. -/
theorem Schema.nodup_leaves :
    (schema : Schema) → schema.leaves.Nodup
  | .nil => List.nodup_nil
  | .stored _ _ type rest => by
      refine List.nodup_append'.mpr
        ⟨type.nodup_leaves.map fun _ _ hEq =>
            Schema.Leaf.stored.inj hEq,
          rest.nodup_leaves.map fun _ _ hEq =>
            Schema.Leaf.behindStored.inj hEq, ?_⟩
      intro leaf hFirst hBehind
      rcases List.mem_map.mp hFirst with ⟨_, _, rfl⟩
      rcases List.mem_map.mp hBehind with ⟨_, _, hEq⟩
      cases hEq
  | .skipped _ _ rest => by
      refine List.nodup_cons.mpr
        ⟨?_, rest.nodup_leaves.map fun _ _ hEq =>
          Schema.Leaf.behindSkipped.inj hEq⟩
      intro hMem
      rcases List.mem_map.mp hMem with ⟨_, _, hEq⟩
      cases hEq
  | .context _ rest => by
      refine List.nodup_cons.mpr
        ⟨?_, rest.nodup_leaves.map fun _ _ hEq =>
          Schema.Leaf.behindContext.inj hEq⟩
      intro hMem
      rcases List.mem_map.mp hMem with ⟨_, _, hEq⟩
      cases hEq
end

------------------------------------------------------------
-- Leaves That Are Read
------------------------------------------------------------

/-
  With no other leaf to be read, reading a value comes to a
  result and changes this leaf to that of a new value.
-/
def FieldType.Leaf.Reads
    {type : FieldType}
    (leaf : FieldType.Leaf type)
    (name : String)
    (source : Source)
    (old : type.Value)
    (result : Except CodecError Unit)
    (new : type.Value) : Prop :=
  leaf.alone.decode name source (leaf.part old) =
    (result, leaf.part new)

/-
  With no other leaf to be read, reading a document comes to
  a result and changes this leaf to that of a new document.
-/
def Schema.Leaf.Reads
    {schema : Schema}
    (leaf : Schema.Leaf schema)
    (source : Source)
    (old : schema.Document)
    (result : Except CodecError Unit)
    (new : schema.Document) : Prop :=
  leaf.alone.decode source (leaf.part old) =
    (result, leaf.part new)

variable {source : Source}

/- What the map lacks of a nested document is kept. -/
theorem FieldType.decode_document_none
    {schema : Schema}
    {name : String}
    (hChild : source.child? name = none)
    (old : (FieldType.document schema).Value) :
    FieldType.decode (.document schema) name source old =
      (.ok (), old) := by
  rw [FieldType.decode, hChild]
  rfl

/- A nested document is read from the map of its name. -/
theorem FieldType.decode_document_some
    {schema : Schema}
    {name : String}
    {child : Source}
    (hChild : source.child? name = some child)
    (old : (FieldType.document schema).Value) :
    FieldType.decode (.document schema) name source old =
      schema.decode child old := by
  rw [FieldType.decode, hChild]

/- A leaf of a nested document is read as the document is. -/
theorem Schema.Leaf.Reads.within
    {schema : Schema}
    {leaf : Schema.Leaf schema}
    {name : String}
    {child : Source}
    {old new : schema.Document}
    {result : Except CodecError Unit}
    (hReads : leaf.Reads child old result new)
    (hChild : source.child? name = some child) :
    (FieldType.Leaf.within leaf).Reads name source old result
      new :=
  (FieldType.decode_document_some hChild _).trans hReads

/- A leaf of a stored field is read as the field is. -/
theorem FieldType.Leaf.Reads.stored
    {type : FieldType}
    {leaf : FieldType.Leaf type}
    {field name : String}
    {rest : Schema}
    {old new : type.Value}
    {olds news : rest.Document}
    {result : Except CodecError Unit}
    (hReads : leaf.Reads name source old result new) :
    let first : Schema.Leaf (.stored field name type rest) :=
      .stored leaf
    first.Reads source (old, olds) result (new, news) := by
  intro first
  cases result with
  | ok done =>
      exact Schema.decode_stored_eq_ok_iff.mpr ⟨hReads, rfl⟩
  | error error =>
      exact Schema.decode_stored_of_error hReads _

mutual
/- A value is read as each of its leaves is. -/
theorem FieldType.reads_of_decode :
    {type : FieldType} → {name : String} →
      {source : Source} → {old new : type.Value} →
      type.decode name source old = (.ok (), new) →
      (leaf : FieldType.Leaf type) →
      leaf.Reads name source old (.ok ()) new
  | _, _, _, _, _, hDecode, .self _ => hDecode
  | .document schema, name, source, old, _, hDecode,
    .within leaf => by
      cases hChild : source.child? name with
      | none =>
          rw [FieldType.decode_document_none hChild]
            at hDecode
          cases hDecode
          exact FieldType.decode_document_none hChild _
      | some child =>
          rw [FieldType.decode_document_some hChild]
            at hDecode
          exact (Schema.reads_of_decode hDecode leaf).within
            hChild

/- A document is read as each of its leaves is. -/
theorem Schema.reads_of_decode :
    {schema : Schema} → {source : Source} →
      {old new : schema.Document} →
      schema.decode source old = (.ok (), new) →
      (leaf : Schema.Leaf schema) →
      leaf.Reads source old (.ok ()) new
  | .stored _ _ _ _, _, _, _, hDecode, .stored leaf =>
      (FieldType.reads_of_decode
        (Schema.decode_stored_eq_ok_iff.mp hDecode).1
        leaf).stored
  | .stored _ _ _ _, _, _, _, hDecode, .behindStored leaf =>
      Schema.reads_of_decode
        (Schema.decode_stored_eq_ok_iff.mp hDecode).2 leaf
  | .skipped _ type _, _, (old, _), (new, _), hDecode,
    .skipped => by
      have hSame : new = old :=
        (Schema.decode_skipped_eq_ok_iff.mp hDecode).1
      subst hSame
      rfl
  | .skipped _ _ _, _, _, _, hDecode, .behindSkipped leaf =>
      Schema.reads_of_decode
        (Schema.decode_skipped_eq_ok_iff.mp hDecode).2 leaf
  | .context _ _, source, _, (new, _), hDecode,
    .context => by
      have hContext : new = source.context :=
        (Schema.decode_context_eq_ok_iff.mp hDecode).1
      subst hContext
      rfl
  | .context _ _, _, _, _, hDecode, .behindContext leaf =>
      Schema.reads_of_decode
        (Schema.decode_context_eq_ok_iff.mp hDecode).2 leaf
end

------------------------------------------------------------
-- The Leaf That Cannot Be Read
------------------------------------------------------------

/-
  Things in a row are done up to a first that fails; it and
  those behind it are kept.
-/
def StopsIn
    {α : Type}
    (row : List α)
    (Done Failed Kept : α → Prop) : Prop :=
  ∃ front first back,
    row = front ++ first :: back ∧
    (∀ other ∈ front, Done other) ∧
    Failed first ∧
    ∀ other ∈ first :: back, Kept other

namespace StopsIn

variable {α β : Type} {row : List α}
variable {Done Failed Kept : α → Prop}

/- A row stops where the one that it was made from does. -/
theorem map
    {Done' Failed' Kept' : β → Prop}
    (hStops : StopsIn row Done Failed Kept)
    (make : α → β)
    (hDone : ∀ a, Done a → Done' (make a))
    (hFailed : ∀ a, Failed a → Failed' (make a))
    (hKept : ∀ a, Kept a → Kept' (make a)) :
    StopsIn (row.map make) Done' Failed' Kept' := by
  rcases hStops
    with ⟨front, first, back, hRow, hFront, hFirst, hBack⟩
  refine
    ⟨front.map make, make first, back.map make, ?_, ?_,
      hFailed first hFirst, ?_⟩
  · rw [hRow, List.map_append, List.map_cons]
  · intro other hOther
    rcases List.mem_map.mp hOther with ⟨a, hMem, hEq⟩
    exact hEq ▸ hDone a (hFront a hMem)
  · intro other hOther
    rw [← List.map_cons] at hOther
    rcases List.mem_map.mp hOther with ⟨a, hMem, hEq⟩
    exact hEq ▸ hKept a (hBack a hMem)

/- A row stops where its start does, if the rest is kept. -/
theorem append
    (hStops : StopsIn row Done Failed Kept)
    {others : List α}
    (hOthers : ∀ other ∈ others, Kept other) :
    StopsIn (row ++ others) Done Failed Kept := by
  rcases hStops
    with ⟨front, first, back, hRow, hFront, hFirst, hBack⟩
  refine
    ⟨front, first, back ++ others, ?_, hFront, hFirst, ?_⟩
  · rw [hRow, List.append_assoc, List.cons_append]
  · intro other hOther
    rw [← List.cons_append] at hOther
    rcases List.mem_append.mp hOther with hMem | hMem
    · exact hBack other hMem
    · exact hOthers other hMem

/- A row stops where its end does, if the rest is done. -/
theorem prepend
    (hStops : StopsIn row Done Failed Kept)
    {others : List α}
    (hOthers : ∀ other ∈ others, Done other) :
    StopsIn (others ++ row) Done Failed Kept := by
  rcases hStops
    with ⟨front, first, back, hRow, hFront, hFirst, hBack⟩
  refine
    ⟨others ++ front, first, back, ?_, ?_, hFirst, hBack⟩
  · rw [hRow, List.append_assoc]
  · intro other hOther
    rcases List.mem_append.mp hOther with hMem | hMem
    · exact hOthers other hMem
    · exact hFront other hMem

/- A row stops where its tail does, if the head is done. -/
theorem cons
    (hStops : StopsIn row Done Failed Kept)
    {head : α}
    (hHead : Done head) :
    StopsIn (head :: row) Done Failed Kept := by
  have hHeads : ∀ other ∈ [head], Done other := by
    intro other hMem
    rw [List.mem_singleton.mp hMem]
    exact hHead
  exact hStops.prepend hHeads

end StopsIn

/- An old value stays if it could not be replaced. -/
theorem Reading.eq_of_replace_error
    {α : Type}
    {old new : α}
    {result : Except CodecError α}
    {error : CodecError}
    (hReplace : replace old result = (.error error, new)) :
    new = old := by
  cases result with
  | error reason =>
      cases hReplace
      rfl
  | ok value => cases hReplace

/- A leaf that cannot be read stays as it was. -/
theorem FieldType.IsLeaf.eq_of_decode_error
    {type : FieldType}
    (hLeaf : type.IsLeaf)
    {name : String}
    {old new : type.Value}
    {error : CodecError}
    (hDecode :
      type.decode name source old = (.error error, new)) :
    new = old := by
  cases type with
  | document schema => exact hLeaf.elim
  | int type => cases hDecode
  | text => cases hDecode
  | bool => cases hDecode
  | slot kind => cases hDecode
  | float32 =>
      cases hDecode
      rfl
  | float64 =>
      cases hDecode
      rfl
  | char =>
      cases hDecode
      rfl
  | timestamp => exact Reading.eq_of_replace_error hDecode
  | list element => exact Reading.eq_of_replace_error hDecode
  | array element length =>
      exact Reading.eq_of_replace_error hDecode
  | table sorted key value =>
      rw [FieldType.decode] at hDecode
      split at hDecode
      · cases hDecode
      · exact Reading.eq_of_replace_error hDecode

/- A value that is a leaf stops at itself. -/
theorem FieldType.IsLeaf.stopsIn_of_decode
    {type : FieldType}
    (hLeaf : type.IsLeaf)
    {name : String}
    {old new : type.Value}
    {error : CodecError}
    (hDecode :
      type.decode name source old = (.error error, new)) :
    StopsIn [FieldType.Leaf.self hLeaf]
      (fun leaf => leaf.Reads name source old (.ok ()) new)
      (fun leaf =>
        leaf.Reads name source old (.error error) new)
      (fun leaf => leaf.part new = leaf.part old) := by
  refine ⟨[], _, [], rfl, nofun, hDecode, ?_⟩
  intro leaf hMem
  rw [List.mem_singleton.mp hMem]
  exact hLeaf.eq_of_decode_error hDecode

mutual
/- A value that cannot be read stops at one of its leaves. -/
theorem FieldType.stopsIn_of_decode :
    (type : FieldType) → {name : String} →
      {source : Source} → {old new : type.Value} →
      {error : CodecError} →
      type.decode name source old = (.error error, new) →
      StopsIn type.leaves
        (fun leaf => leaf.Reads name source old (.ok ()) new)
        (fun leaf =>
          leaf.Reads name source old (.error error) new)
        (fun leaf => leaf.part new = leaf.part old)
  | .document schema, name, source, old, _, _, hDecode => by
      cases hChild : source.child? name with
      | none =>
          rw [FieldType.decode_document_none hChild]
            at hDecode
          cases hDecode
      | some child =>
          rw [FieldType.decode_document_some hChild]
            at hDecode
          exact (schema.stopsIn_of_decode hDecode).map
            FieldType.Leaf.within
            (fun _ hReads => hReads.within hChild)
            (fun _ hReads => hReads.within hChild)
            (fun _ => id)
  | .int _, _, _, _, _, _, hDecode
  | .text, _, _, _, _, _, hDecode
  | .bool, _, _, _, _, _, hDecode
  | .timestamp, _, _, _, _, _, hDecode
  | .float32, _, _, _, _, _, hDecode
  | .float64, _, _, _, _, _, hDecode
  | .char, _, _, _, _, _, hDecode
  | .slot _, _, _, _, _, _, hDecode
  | .list _, _, _, _, _, _, hDecode
  | .array _ _, _, _, _, _, _, hDecode
  | .table _ _ _, _, _, _, _, _, hDecode =>
      FieldType.IsLeaf.stopsIn_of_decode (by trivial) hDecode

/- A document that cannot be read stops at a leaf of it. -/
theorem Schema.stopsIn_of_decode :
    (schema : Schema) → {source : Source} →
      {old new : schema.Document} → {error : CodecError} →
      schema.decode source old = (.error error, new) →
      StopsIn schema.leaves
        (fun leaf => leaf.Reads source old (.ok ()) new)
        (fun leaf => leaf.Reads source old (.error error) new)
        (fun leaf => leaf.part new = leaf.part old)
  | .nil, _, _, _, _, hDecode => by
      cases hDecode
  | .stored field name type rest, source, (old, olds), _, _,
    hDecode => by
      rcases hValue : type.decode name source old
        with ⟨reason | done, value⟩
      · rw [Schema.decode_stored_of_error hValue] at hDecode
        cases hDecode
        refine ((type.stopsIn_of_decode hValue).map
          Schema.Leaf.stored
          (fun _ hReads => hReads.stored)
          (fun _ hReads => hReads.stored)
          (fun leaf hKept => congrArg (·, ()) hKept)).append ?_
        intro leaf hMem
        rcases List.mem_map.mp hMem with ⟨_, _, rfl⟩
        rfl
      · rw [Schema.decode, hValue] at hDecode
        rcases hRest : rest.decode source olds
          with ⟨result, values⟩
        rw [hRest] at hDecode
        cases hDecode
        refine ((rest.stopsIn_of_decode hRest).map
          Schema.Leaf.behindStored (fun _ => id) (fun _ => id)
          (fun _ => id)).prepend ?_
        intro leaf hMem
        rcases List.mem_map.mp hMem with ⟨first, _, rfl⟩
        exact (FieldType.reads_of_decode hValue first).stored
  | .skipped field type rest, source, (old, olds), _, _,
    hDecode => by
      rw [Schema.decode] at hDecode
      rcases hRest : rest.decode source olds
        with ⟨result, values⟩
      rw [hRest] at hDecode
      cases hDecode
      refine ((rest.stopsIn_of_decode hRest).map
        Schema.Leaf.behindSkipped (fun _ => id) (fun _ => id)
        (fun _ => id)).cons ?_
      rfl
  | .context field rest, source, (old, olds), _, _,
    hDecode => by
      rw [Schema.decode] at hDecode
      rcases hRest : rest.decode source olds
        with ⟨result, values⟩
      rw [hRest] at hDecode
      cases hDecode
      refine ((rest.stopsIn_of_decode hRest).map
        Schema.Leaf.behindContext (fun _ => id) (fun _ => id)
        (fun _ => id)).cons ?_
      rfl
end

/-
  A document that cannot be read was read leaf by leaf, each
  as if alone, up to the one that could not be.  This leaf
  and those behind it are as they were before.
-/
theorem Schema.stopsIn_of_decodeDocument
    {schema : Schema}
    {map : CrdtMap}
    {context : Bytes}
    {root : Path}
    {old new : schema.Document}
    {error : CodecError}
    (hDecode :
      schema.decodeDocument map context root old =
        (.error error, new)) :
    ∃ front leaf back,
      schema.leaves = front ++ leaf :: back ∧
      (∀ other ∈ front,
        other.alone.decodeDocument map context root
            (other.part old) =
          (.ok (), other.part new)) ∧
      leaf.alone.decodeDocument map context root
          (leaf.part old) =
        (.error error, leaf.part old) ∧
      ∀ other ∈ leaf :: back,
        other.part new = other.part old := by
  rcases schema.stopsIn_of_decode hDecode
    with ⟨front, leaf, back, hLeaves, hFront, hLeaf, hBack⟩
  refine ⟨front, leaf, back, hLeaves, hFront, ?_, hBack⟩
  have hKept := hBack leaf List.mem_cons_self
  rw [Schema.Leaf.Reads, hKept] at hLeaf
  exact hLeaf

/-
  The flag in front of a point in time that cannot be read
  is new, and the slot and the text behind it are old.
-/
theorem Schema.stopsIn_of_decodeDocument_within :
    let inner : Schema :=
      .stored "on" "on" .bool
        (.stored "at" "at" .timestamp
          (.stored "n" "n" (.slot .counter) .nil))
    let schema : Schema :=
      .context "c"
        (.stored "in" "in" (.document inner)
          (.stored "t" "t" .text .nil))
    let map : CrdtMap :=
      { CrdtMap.empty with
        registers := [("t", [0x61])]
        maps :=
          [("in",
            { CrdtMap.empty with
              registers := [("at", [])]
              flags := [("on", true)] })] }
    let old : schema.Document :=
      ([], (false, Timestamp.epoch, none, ()), "", ())
    let new : schema.Document :=
      ([7], (true, Timestamp.epoch, none, ()), "", ())
    let root := Path.root ⟨"b", "t", "k"⟩
    let error := CodecError.invalidTimestamp "at" .noData
    schema.decodeDocument map [7] root old =
        (.error error, new) ∧
    ∃ front leaf back,
      schema.leaves = front ++ leaf :: back ∧
      (∀ other ∈ front,
        other.alone.decodeDocument map [7] root
            (other.part old) =
          (.ok (), other.part new)) ∧
      leaf.alone.decodeDocument map [7] root
          (leaf.part old) =
        (.error error, leaf.part old) ∧
      ∀ other ∈ leaf :: back,
        other.part new = other.part old := by
  intro inner schema map old new root error
  have hDecode :
      schema.decodeDocument map [7] root old =
        (.error error, new) := by
    rfl
  exact ⟨hDecode, stopsIn_of_decodeDocument hDecode⟩

end CrdtDoc
