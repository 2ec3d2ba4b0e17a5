import CrdtDoc.Proofs.EntryReading
import CrdtDoc.Proofs.SlotFilling
import CrdtDoc.Proofs.StoredForm

/-
  This file shows that a document nested in another one is
  written and read as a document of its own, whose root is
  one name deeper.

  Key definitions include:
    * `Schema.Nested`
    * `Schema.Nested.document`

  Main declarations:
    * `Schema.Nested.exists_encode`
    * `Schema.Nested.document_fill`
    * `Schema.Nested.decode_of_decode`
    * `Schema.Nested.agrees_below_root`
-/

namespace CrdtDoc

------------------------------------------------------------
-- Nested Documents
------------------------------------------------------------

/-
  The stored fields of a document that are stored under a
  name and are documents of a schema themselves.
-/
inductive Schema.Nested
    (name : String)
    (inner : Schema) : Schema → Type where
  | first
      {field : String}
      {rest : Schema} :
      Schema.Nested name inner
        (.stored field name (.document inner) rest)
  | behindStored
      {field other : String}
      {type : FieldType}
      {rest : Schema}
      (nested : Schema.Nested name inner rest) :
      Schema.Nested name inner (.stored field other type rest)
  | behindSkipped
      {field : String}
      {type : FieldType}
      {rest : Schema}
      (nested : Schema.Nested name inner rest) :
      Schema.Nested name inner (.skipped field type rest)
  | behindContext
      {field : String}
      {rest : Schema}
      (nested : Schema.Nested name inner rest) :
      Schema.Nested name inner (.context field rest)

namespace Schema.Nested

/- The document that is nested in another one. -/
def document
    {name : String}
    {inner : Schema} :
    {outer : Schema} → Nested name inner outer →
      outer.Document → inner.Document
  | _, .first, (value, _) => value
  | _, .behindStored nested, (_, values) =>
      nested.document values
  | _, .behindSkipped nested, (_, values) =>
      nested.document values
  | _, .behindContext nested, (_, values) =>
      nested.document values

variable {name : String} {inner outer : Schema}

------------------------------------------------------------
-- Writing
------------------------------------------------------------

/-
  Where a document is written, each document nested in it is
  written as it is on its own.
-/
theorem exists_encode
    (nested : Nested name inner outer)
    (hNames : outer.HasDistinctNames)
    {document : outer.Document}
    {before after : Update}
    (hFree :
      ∀ other ∈ outer.names, before.entry other = .none)
    (hEncode : outer.encode document before = .ok after) :
    ∃ child,
      inner.encode (nested.document document) .empty =
        .ok child ∧
      after.map? name = some child := by
  induction nested generalizing before with
  | behindSkipped nested ih => exact ih hNames hFree hEncode
  | behindContext nested ih => exact ih hNames hFree hEncode
  | @behindStored _ other type rest nested ih =>
      rcases document with ⟨value, values⟩
      rcases hNames with ⟨hOther, hType, hRest⟩
      rw [Schema.encode, bind_eq_ok_iff] at hEncode
      rcases hEncode with ⟨middle, hMiddle, hAfter⟩
      rcases type.replaces_of_encode hType
        (hFree other List.mem_cons_self) hMiddle
        with ⟨entry, _, hReplaces⟩
      exact ih hRest (hReplaces.entry_of_mem hOther hFree)
        hAfter
  | @first _ rest =>
      rcases document with ⟨value, values⟩
      rcases hNames with ⟨hName, hInner, hRest⟩
      rw [Schema.encode, bind_eq_ok_iff] at hEncode
      rcases hEncode with ⟨middle, hMiddle, hAfter⟩
      have hNone := hFree name List.mem_cons_self
      rw [FieldType.encode, bind_eq_ok_iff] at hMiddle
      rcases hMiddle with ⟨child, hChild, hMade⟩
      cases hMade
      rw [Update.child_eq_empty hNone] at hChild
      have hReplaces := Update.replaces_setChild hNone child
      have hEntry :=
        (rest.storedIn_of_encode hRest
          (hReplaces.entry_of_mem hName hFree) hAfter).2
          name hName
      rw [hReplaces.entry_eq] at hEntry
      exact
        ⟨child, hChild, congrArg Update.Entry.map hEntry⟩

/- Filling a document fills each one nested in it. -/
theorem document_fill
    (nested : Nested name inner outer)
    (document : outer.Document)
    (path : Path) :
    nested.document (outer.fill document path) =
      inner.fill (nested.document document)
        (path.child name) := by
  induction nested with
  | first => rfl
  | behindStored nested ih => exact ih document.2
  | behindSkipped nested ih => exact ih document.2
  | behindContext nested ih => exact ih document.2

------------------------------------------------------------
-- Reading
------------------------------------------------------------

/-
  Where a document is read, each document nested in it whose
  map is there is read as it is on its own.
-/
theorem decode_of_decode
    (nested : Nested name inner outer)
    {source child : Source}
    (hChild : source.child? name = some child)
    {old new : outer.Document}
    (hDecode : outer.decode source old = (.ok (), new)) :
    inner.decode child (nested.document old) =
      (.ok (), nested.document new) := by
  induction nested with
  | behindStored nested ih =>
      exact ih (Schema.decode_stored_eq_ok_iff.mp hDecode).2
  | behindSkipped nested ih =>
      exact ih (Schema.decode_skipped_eq_ok_iff.mp hDecode).2
  | behindContext nested ih =>
      exact ih (Schema.decode_context_eq_ok_iff.mp hDecode).2
  | first =>
      have hValue :=
        (Schema.decode_stored_eq_ok_iff.mp hDecode).1
      rw [FieldType.decode, hChild] at hValue
      exact hValue

end Schema.Nested

/- A path leads on by a name from where it leads to. -/
theorem CrdtMap.at?_concat
    (map : CrdtMap)
    (path : List String)
    (name : String) :
    map.at? (path ++ [name]) =
      (map.at? path).bind (·.map? name) := by
  induction path generalizing map with
  | nil =>
      rw [List.nil_append, at?]
      cases hMap : map.map? name with
      | none => simp only [at?, Option.bind_some, hMap]
      | some child => simp only [at?, Option.bind_some, hMap]
  | cons first rest ih =>
      rw [List.cons_append, at?, at?]
      cases map.map? first with
      | none => rfl
      | some child => exact ih child

/- The source of a document is where its path leads to. -/
theorem Source.child?_of_at?
    {map inner : CrdtMap}
    {root : Path}
    {name : String}
    (hInner :
      map.at? (root.child name).segments = some inner)
    (context : Bytes) :
    child?
        ⟨(map.at? root.segments).getD .empty, root, context⟩
        name =
      some ⟨inner, root.child name, context⟩ := by
  rw [Path.child, CrdtMap.at?_concat] at hInner
  rcases Option.bind_eq_some_iff.mp hInner
    with ⟨outer, hOuter, hMap⟩
  rw [child?, hOuter, Option.getD_some, hMap]
  rfl

namespace Schema.Nested

variable {name : String} {inner outer : Schema}

------------------------------------------------------------
-- Documents
------------------------------------------------------------

/-
  A document nested in another one is treated as a document
  of its own, one name below the root of the other one.

  It can be written if the other one can, the update of both
  at its path is the same, and so are the slots that get
  bound.  Where its map is there, it is also read as it is
  on its own, over what it was before.
-/
theorem agrees_below_root
    (nested : Nested name inner outer)
    (hNames : outer.HasDistinctNames)
    (document : outer.Document)
    (root : Path) :
    let below := root.child name
    let own := nested.document document
    (∀ encoded,
      outer.encodeDocument document root = .ok encoded →
      ∃ alone update,
        inner.encodeDocument own below = .ok alone ∧
        alone.update.at? below.segments = some update ∧
        encoded.update.at? below.segments = some update) ∧
    (∀ encoded bound,
      outer.encodeDocumentBinding document root =
        (.ok encoded, bound) →
      ∃ alone update,
        inner.encodeDocumentBinding own below =
          (.ok alone, nested.document bound) ∧
        alone.update.at? below.segments = some update ∧
        encoded.update.at? below.segments = some update) ∧
    ∀ map context new,
      map.at? below.segments ≠ none →
      outer.decodeDocument map context root document =
        (.ok (), new) →
      inner.decodeDocument map context below own =
        (.ok (), nested.document new) := by
  intro below own
  have hWritten :
      ∀ encoded,
        outer.encodeDocument document root = .ok encoded →
        ∃ alone update,
          inner.encodeDocument own below = .ok alone ∧
          alone.update.at? below.segments = some update ∧
          encoded.update.at? below.segments =
            some update := by
    intro encoded hEncode
    rcases Schema.eq_within_of_encodeDocument hEncode
      with ⟨update, hUpdate, hEncoded⟩
    rcases nested.exists_encode hNames
      (fun other _ => Update.entry_empty other) hUpdate
      with ⟨child, hChild, hMap⟩
    have hAlone :
        inner.encodeDocument own below =
          .ok ⟨child.within below.segments,
            inner.causalContext own⟩ := by
      rw [Schema.encodeDocument_eq, hChild]
      rfl
    refine ⟨_, child, hAlone, ?_, ?_⟩
    · have hWithin :=
        Update.at?_within_append child below.segments []
      rwa [List.append_nil] at hWithin
    · rw [hEncoded]
      change (update.within root.segments).at?
        (root.segments ++ [name]) = some child
      rw [Update.at?_within_append, Update.at?, hMap]
      rfl
  refine ⟨hWritten, ?_, ?_⟩
  · intro encoded bound hBinding
    have hEncode :
        outer.encodeDocument document root = .ok encoded := by
      rw [← outer.fst_encodeDocumentBinding, hBinding]
    rcases hWritten encoded hEncode
      with ⟨alone, update, hAlone, hOwn, hOuter⟩
    have hBound : bound = outer.fill document root := by
      rw [Schema.encodeDocumentBinding_eq_ok hEncode]
        at hBinding
      exact (congrArg Prod.snd hBinding).symm
    refine ⟨alone, update, ?_, hOwn, hOuter⟩
    rw [hBound, nested.document_fill]
    exact Schema.encodeDocumentBinding_eq_ok hAlone
  · intro map context new hMap hDecode
    rcases Option.ne_none_iff_exists'.mp hMap
      with ⟨child, hChild⟩
    have hSource := Source.child?_of_at? hChild context
    have hInner := nested.decode_of_decode hSource hDecode
    rw [Schema.decodeDocument, hChild]
    exact hInner

/- A nested slot is bound and loaded as it is on its own. -/
theorem agrees_below_root_slot :
    let inner : Schema :=
      .stored "n" "n" (.slot .counter) (.context "c" .nil)
    let outer : Schema :=
      .stored "t" "t" .text
        (.stored "in" "m" (.document inner) .nil)
    let nested : Nested "m" inner outer :=
      .behindStored .first
    let document : outer.Document :=
      ("x", (none, [9], ()), ())
    let own := nested.document document
    let root := Path.root ⟨"b", "t", "k"⟩
    let below := root.child "m"
    let five : Integer .i64 := ⟨5, by decide, by decide⟩
    let map : CrdtMap :=
      { CrdtMap.empty with
        maps :=
          [("m",
            { CrdtMap.empty with counters := [("n", five)] })] }
    outer.HasDistinctNames ∧
    (∃ encoded bound alone update,
      outer.encodeDocumentBinding document root =
        (.ok encoded, bound) ∧
      inner.encodeDocumentBinding own below =
        (.ok alone, nested.document bound) ∧
      alone.update.at? below.segments = some update ∧
      encoded.update.at? below.segments = some update) ∧
    ∃ new,
      outer.decodeDocument map [7] root document =
        (.ok (), new) ∧
      inner.decodeDocument map [7] below own =
        (.ok (), nested.document new) := by
  intro inner outer nested document own root below five map
  have hNames : outer.HasDistinctNames := by
    have hInner : inner.HasDistinctNames :=
      ⟨List.not_mem_nil, trivial, trivial⟩
    refine ⟨?_, trivial, List.not_mem_nil, hInner, trivial⟩
    decide
  have hAgrees := nested.agrees_below_root hNames document root
  refine ⟨hNames, ?_, ?_⟩
  · rcases hAgrees.2.1 _ _ rfl
      with ⟨alone, update, hAlone, hOwn, hOuter⟩
    exact ⟨_, _, alone, update, rfl, hAlone, hOwn, hOuter⟩
  · exact ⟨_, rfl, hAgrees.2.2 map [7] _ nofun rfl⟩

end Schema.Nested

end CrdtDoc
