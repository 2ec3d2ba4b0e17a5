import CrdtDoc.Bucket
import CrdtDoc.Proofs.FilteredUpdate
import CrdtDoc.Proofs.HandleFrame
import CrdtDoc.Proofs.SlotAddress
import CrdtDoc.Proofs.SlotFilling
import CrdtDoc.Proofs.WrittenForm

/-
  This file describes slots that nobody touches while their
  document is stored again and again.

  Storing fills an empty slot with a handle of its entry that
  was not read.  This is harmless for a counter or a set, as
  their handles send what was changed, and nothing was.  The
  handle of a flag or a register sends all that it shows, so
  that the next time the entry takes the state of a handle
  that was never read.

  Key definitions include:
    * `HandleKind.sendsAll`
    * `HandleKind.shownIn`
    * `PlacedSlot.bindIn`

  Main declarations:
    * `HandleKind.shownIn_of_makes_empty`
    * `HandleKind.shownIn_of_makes_bound`
    * `Schema.exists_hasSlot_fillFirst`
    * `Schema.hasSlot_bound_of_encodeDocument`
    * `Schema.exists_encode_of_fillFirst`
-/

namespace CrdtDoc

------------------------------------------------------------
-- Shown Entries
------------------------------------------------------------

/- The empty member makes no other member of a set. -/
theorem Members.filter_insert_nil
    (members : Members) :
    (members.insert []).filter (!·.isEmpty) =
      members.filter (!·.isEmpty) := by
  rcases insert_eq_or members []
    with ⟨_, hSame⟩ | ⟨front, back, hMembers, hInsert⟩
  · rw [hSame]
  · rw [hInsert, hMembers, List.filter_append,
      List.filter_append,
      List.filter_cons_of_neg (by decide)]

namespace HandleKind

/-
  Do the handles of a kind send all that they show?  If not,
  they send what was changed since they were read.
-/
def sendsAll : HandleKind → Bool
  | .counter => false
  | .set => false
  | .flag => true
  | .register => true

/- What a handle shows if it is loaded from an entry. -/
def shownIn :
    (kind : HandleKind) → CrdtMap.Entry → kind.Value
  | .counter, entry =>
      (CrdtMap.Entry.counter entry).getD .zero
  | .set, entry =>
      ((CrdtMap.Entry.set entry).getD []).filter
        (!·.isEmpty)
  | .flag, entry => (CrdtMap.Entry.flag entry).getD false
  | .register, entry =>
      (CrdtMap.Entry.register entry).getD []

/- A loaded handle shows the entry that it is loaded from. -/
theorem shown_load
    (kind : HandleKind)
    (binding : Binding)
    (map : CrdtMap) :
    kind.shown (kind.load binding map) =
      kind.shownIn
        { map.entry binding.name with map := none } := by
  cases kind <;> rfl

variable {kind : HandleKind} {before after : CrdtMap.Entry}

/- A counter shows the same after nothing was added to it. -/
theorem shownIn_counter_of_makes
    {entry : Update.Entry}
    (hMakes : entry.Makes before after)
    (hEntry : entry.counter = some .zero) :
    HandleKind.counter.shownIn after =
      HandleKind.counter.shownIn before := by
  have hCounter := hMakes.counter
  rw [hEntry] at hCounter
  rcases hCounter with ⟨sum, hSum, hAfter⟩
  rw [Update.sumOf_eq_ok_iff, Integer.add?_zero] at hSum
  cases hSum
  exact congrArg (·.getD .zero) hAfter

/- What an empty slot writes is not shown. -/
theorem shownIn_of_makes_empty
    (hMakes :
      (Slot.written (none : Slot kind)).Makes before after) :
    kind.shownIn after = kind.shownIn before := by
  cases kind with
  | counter => exact shownIn_counter_of_makes hMakes rfl
  | set =>
      have hSet :
          after.set =
            some ((before.set.getD []).insert []) := by
        refine hMakes.set.trans ?_
        cases before.set with
        | none => rfl
        | some members =>
            exact congrArg
              (fun members : Members =>
                some (members.insert []))
              members.remove_nil
      refine (congrArg
        (fun set => (set.getD []).filter (!·.isEmpty))
        hSet).trans ?_
      exact Members.filter_insert_nil _
  | flag => exact congrArg (·.getD false) hMakes.flag
  | register =>
      exact congrArg (·.getD []) hMakes.register

/-
  What a handle writes that was not read is what it shows,
  if its kind sends all of it, and else it is nothing.
-/
theorem shownIn_of_makes_bound
    {binding : Binding}
    (hMakes :
      (Slot.written (some (kind.bound binding))).Makes before
        after) :
    kind.shownIn after =
      if kind.sendsAll then kind.shown (kind.bound binding)
      else kind.shownIn before := by
  cases kind with
  | counter => exact shownIn_counter_of_makes hMakes rfl
  | set =>
      have hSet := hMakes.set_eq rfl rfl
      exact congrArg
        (fun set => (set.getD []).filter (!·.isEmpty)) hSet
  | flag => exact congrArg (·.getD false) hMakes.flag
  | register =>
      exact congrArg (·.getD []) hMakes.register

end HandleKind

------------------------------------------------------------
-- Filled Slots
------------------------------------------------------------

namespace PlacedSlot

/- The slot as it is after its document was stored at a path. -/
def bindIn
    (placed : PlacedSlot)
    (root : Path)
    (mode : SlotMode) : PlacedSlot :=
  { placed with
    slot :=
      placed.slot.bindIn
        ⟨root.location, root.segments ++ placed.segments⟩
        placed.name mode }

/- A slot is filled in its place, wherever this is. -/
theorem bindIn_within
    (placed : PlacedSlot)
    (name : String)
    (root : Path)
    (mode : SlotMode) :
    (placed.bindIn (root.child name) mode).within name =
      (placed.within name).bindIn root mode := by
  simp only [bindIn, within, Path.child, List.append_assoc,
    List.singleton_append]

/- A slot that is filled or kept stays so. -/
theorem bindIn_bindIn
    (placed : PlacedSlot)
    (root : Path)
    (mode : SlotMode) :
    (placed.bindIn root mode).bindIn root mode =
      placed.bindIn root mode := by
  cases mode <;> rfl

end PlacedSlot

mutual
/- Of the slots of a value, the first are filled. -/
theorem FieldType.exists_hasSlot_fillFirst :
    (type : FieldType) → {value : type.Value} →
      {name : String} → {mode : SlotMode} →
      {placed : PlacedSlot} →
      type.HasSlot value name mode placed →
      (count : Nat) → (root : Path) →
      ∃ new,
        type.HasSlot (type.fillFirst count value root name)
          name mode new ∧
        (new = placed ∨ new = placed.bindIn root mode) ∧
        (type.fieldCount ≤ count →
          new = placed.bindIn root mode)
  | .slot kind, slot, name, _, _, ⟨hMode, hPlaced⟩, 0,
    root => by
      refine ⟨_, ⟨hMode, hPlaced⟩, Or.inl rfl, ?_⟩
      intro hCount
      cases hCount
  | .slot kind, slot, name, _, _, ⟨hMode, hPlaced⟩,
    count + 1, root => by
      subst hMode hPlaced
      have hNew :
          (⟨kind, Slot.orBound slot root name, [], name⟩ :
              PlacedSlot) =
            PlacedSlot.bindIn ⟨kind, slot, [], name⟩ root
              .filling := by
        unfold PlacedSlot.bindIn
        simp only [List.append_nil]
        rfl
      exact ⟨_, ⟨rfl, rfl⟩, Or.inr hNew, fun _ => hNew⟩
  | .document schema, document, name, mode, _, hSlot, count,
    root => by
      rcases hSlot with ⟨inner, hInner, rfl⟩
      rcases schema.exists_hasSlot_fillFirst hInner count
        (root.child name) with ⟨new, hNew, hOr, hAll⟩
      refine ⟨new.within name, ⟨new, hNew, rfl⟩, ?_, ?_⟩
      · rw [← inner.bindIn_within]
        rcases hOr with hOr | hOr
        · exact Or.inl (congrArg (·.within name) hOr)
        · exact Or.inr (congrArg (·.within name) hOr)
      · intro hCount
        rw [← inner.bindIn_within, hAll hCount]
  | .table _ _ _, _, _, _, placed, hSlot, _, _ => by
      have hMode := hSlot.1
      subst hMode
      exact ⟨placed, hSlot, Or.inl rfl, fun _ => rfl⟩
  | .int _, _, _, _, _, hSlot, _, _ => hSlot.elim
  | .text, _, _, _, _, hSlot, _, _ => hSlot.elim
  | .bool, _, _, _, _, hSlot, _, _ => hSlot.elim
  | .timestamp, _, _, _, _, hSlot, _, _ => hSlot.elim
  | .float32, _, _, _, _, hSlot, _, _ => hSlot.elim
  | .float64, _, _, _, _, hSlot, _, _ => hSlot.elim
  | .char, _, _, _, _, hSlot, _, _ => hSlot.elim
  | .list _, _, _, _, _, hSlot, _, _ => hSlot.elim
  | .array _ _, _, _, _, _, hSlot, _, _ => hSlot.elim

/- Of the slots of a document, the first are filled. -/
theorem Schema.exists_hasSlot_fillFirst :
    (schema : Schema) → {document : schema.Document} →
      {mode : SlotMode} → {placed : PlacedSlot} →
      schema.HasSlot document mode placed →
      (count : Nat) → (root : Path) →
      ∃ new,
        schema.HasSlot (schema.fillFirst count document root)
          mode new ∧
        (new = placed ∨ new = placed.bindIn root mode) ∧
        (schema.fieldCount ≤ count →
          new = placed.bindIn root mode)
  | .nil, _, _, _, hSlot, _, _ => hSlot.elim
  | .stored _ name type rest, (value, values), _, _, hSlot,
    count, root => by
      rcases hSlot with hSlot | hSlot
      · rcases type.exists_hasSlot_fillFirst hSlot count root
          with ⟨new, hNew, hOr, hAll⟩
        refine ⟨new, Or.inl hNew, hOr, ?_⟩
        intro hCount
        rw [Schema.fieldCount] at hCount
        exact hAll (by omega)
      · rcases rest.exists_hasSlot_fillFirst hSlot
          (count - type.fieldCount) root
          with ⟨new, hNew, hOr, hAll⟩
        refine ⟨new, Or.inr hNew, hOr, ?_⟩
        intro hCount
        rw [Schema.fieldCount] at hCount
        exact hAll (by omega)
  | .skipped _ _ rest, (_, values), _, _, hSlot, count,
    root =>
      rest.exists_hasSlot_fillFirst hSlot count root
  | .context _ rest, (_, values), _, _, hSlot, count, root =>
      rest.exists_hasSlot_fillFirst hSlot count root
end

/- A document whose slots are all filled has this one filled. -/
theorem Schema.hasSlot_fill
    {schema : Schema}
    {document : schema.Document}
    {mode : SlotMode}
    {placed : PlacedSlot}
    (hSlot : schema.HasSlot document mode placed)
    (root : Path) :
    schema.HasSlot (schema.fill document root) mode
      (placed.bindIn root mode) := by
  rcases schema.exists_hasSlot_fillFirst hSlot
    schema.fieldCount root with ⟨new, hNew, _, hAll⟩
  rw [hAll (Nat.le_refl _),
    schema.fillFirst_of_le document root (Nat.le_refl _)]
    at hNew
  exact hNew

/-
  Once a document was written so that its slots are bound, an
  empty one that is within no table is filled with a handle
  of its entry, which has no context yet.
-/
theorem Schema.hasSlot_bound_of_encodeDocument
    {schema : Schema}
    {document : schema.Document}
    {placed : PlacedSlot}
    (hSlot : schema.HasSlot document .filling placed)
    (hNone : placed.slot = none)
    {root : Path}
    {encoded : Encoded}
    (hEncode :
      schema.encodeDocument document root = .ok encoded) :
    schema.HasSlot
      (schema.encodeDocumentBinding document root).2 .filling
      ⟨placed.kind,
        some (placed.kind.bound (placed.binding root [])),
        placed.segments, placed.name⟩ := by
  rw [encodeDocumentBinding_eq_ok hEncode]
  have hFilled := Schema.hasSlot_fill hSlot root
  rcases placed with ⟨kind, slot, segments, name⟩
  have hSlotNone : slot = none := hNone
  subst hSlotNone
  exact hFilled

/- What was written of a value can be written elsewhere. -/
theorem FieldType.exists_encode_elsewhere
    {type : FieldType}
    (hNames : type.HasDistinctNames)
    {value : type.Value}
    {name : String}
    {update other after : Update}
    (hEntry : update.entry name = .none)
    (hOther : other.entry name = .none)
    (hEncode : type.encode value name update = .ok after) :
    ∃ made, type.encode value name other = .ok made := by
  rcases FieldType.exists_writtenAs hNames hEntry hEncode
    with ⟨entry, hWritten, _⟩
  exact hWritten.exists_encode_at hNames hOther

mutual
/- A value can be written if it can with slots filled. -/
theorem FieldType.exists_encode_of_fillFirst :
    (type : FieldType) → type.HasDistinctNames →
      {value : type.Value} → {count : Nat} →
      {root : Path} → {name : String} →
      {update other after : Update} →
      update.entry name = .none →
      other.entry name = .none →
      type.encode (type.fillFirst count value root name) name
        update = .ok after →
      ∃ made, type.encode value name other = .ok made
  | .slot _, _, slot, _, _, _, _, _, _, _, hOther, _ => by
      rcases Update.exists_writeSlot hOther slot
        with ⟨made, hMade, _⟩
      exact ⟨made, hMade⟩
  | .document schema, hNames, document, _, _, name, _, other,
    _, hEntry, hOther, hEncode => by
      rw [FieldType.encode, bind_eq_ok_iff,
        Update.child_eq_empty hEntry] at hEncode
      rcases hEncode with ⟨child, hChild, _⟩
      rcases schema.exists_encode_of_fillFirst hNames
        (fun _ _ => Update.entry_empty _)
        (fun _ _ => Update.entry_empty _) hChild
        with ⟨made, hMade⟩
      refine ⟨other.setChild name made, ?_⟩
      rw [FieldType.encode, bind_eq_ok_iff,
        Update.child_eq_empty hOther]
      exact ⟨made, hMade, rfl⟩
  | .int _, hNames, _, _, _, _, _, _, _, hEntry, hOther, hEncode
  | .text, hNames, _, _, _, _, _, _, _, hEntry, hOther, hEncode
  | .bool, hNames, _, _, _, _, _, _, _, hEntry, hOther, hEncode
  | .timestamp, hNames, _, _, _, _, _, _, _, hEntry, hOther,
    hEncode
  | .float32, hNames, _, _, _, _, _, _, _, hEntry, hOther,
    hEncode
  | .float64, hNames, _, _, _, _, _, _, _, hEntry, hOther,
    hEncode
  | .char, hNames, _, _, _, _, _, _, _, hEntry, hOther, hEncode
  | .list _, hNames, _, _, _, _, _, _, _, hEntry, hOther,
    hEncode
  | .array _ _, hNames, _, _, _, _, _, _, _, hEntry, hOther,
    hEncode
  | .table _ _ _, hNames, _, _, _, _, _, _, _, hEntry, hOther,
    hEncode =>
      FieldType.exists_encode_elsewhere hNames hEntry hOther
        hEncode

/- A document can be written if it can with slots filled. -/
theorem Schema.exists_encode_of_fillFirst :
    (schema : Schema) → schema.HasDistinctNames →
      {document : schema.Document} → {count : Nat} →
      {root : Path} → {update other after : Update} →
      (∀ name ∈ schema.names, update.entry name = .none) →
      (∀ name ∈ schema.names, other.entry name = .none) →
      schema.encode (schema.fillFirst count document root)
        update = .ok after →
      ∃ made, schema.encode document other = .ok made
  | .nil, _, _, _, _, _, other, _, _, _, _ => ⟨other, rfl⟩
  | .stored _ name type rest, hNames, (value, values), count,
    root, update, other, after, hEntries, hOthers,
    hEncode => by
      rcases hNames with ⟨hName, hType, hRest⟩
      have hEntry := hEntries name List.mem_cons_self
      have hOther := hOthers name List.mem_cons_self
      rw [Schema.fillFirst, Schema.encode, bind_eq_ok_iff]
        at hEncode
      rcases hEncode with ⟨middle, hMiddle, hAfter⟩
      rcases type.replaces_of_encode hType hEntry hMiddle
        with ⟨_, _, hReplaces⟩
      rcases type.exists_encode_of_fillFirst hType hEntry
        hOther hMiddle with ⟨made, hMade⟩
      rcases type.replaces_of_encode hType hOther hMade
        with ⟨_, _, hReplaced⟩
      rcases rest.exists_encode_of_fillFirst hRest
        (hReplaces.entry_of_mem hName hEntries)
        (hReplaced.entry_of_mem hName hOthers) hAfter
        with ⟨last, hLast⟩
      refine ⟨last, ?_⟩
      rw [Schema.encode, bind_eq_ok_iff]
      exact ⟨made, hMade, hLast⟩
  | .skipped _ _ rest, hNames, (_, values), _, _, _, _, _,
    hEntries, hOthers, hEncode =>
      rest.exists_encode_of_fillFirst hNames hEntries hOthers
        hEncode
  | .context _ rest, hNames, (_, values), _, _, _, _, _,
    hEntries, hOthers, hEncode =>
      rest.exists_encode_of_fillFirst hNames hEntries hOthers
        hEncode
end

end CrdtDoc
