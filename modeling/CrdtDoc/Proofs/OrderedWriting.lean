import CrdtDoc.Encode
import CrdtDoc.Proofs.EntryWriting

/-
  This file shows that writing keeps the order of names: an
  update that is well-formed at every depth is so after any
  write, and after a document is written to it.

  Main declarations:
    * `Update.wellFormed_iff`
    * `Update.WellFormed.write`
    * `Update.WellFormed.setChild`
    * `FieldType.wellFormed_of_encode`
    * `Schema.wellFormed_of_encode`
-/

namespace CrdtDoc

------------------------------------------------------------
-- Sections
------------------------------------------------------------

namespace Entries

variable {α : Type}

/- An insertion adds no entry but its own. -/
theorem mem_insert
    {entries : Entries α}
    {name : String}
    {value : α}
    {entry : String × α}
    (hMem : entry ∈ insert entries name value) :
    entry = (name, value) ∨ entry ∈ entries := by
  induction entries with
  | nil => exact Or.inl (List.mem_singleton.mp hMem)
  | cons first rest ih =>
      rcases first with ⟨key, old⟩
      rw [insert] at hMem
      split at hMem
      · exact List.mem_cons.mp hMem
      · split at hMem
        · rcases List.mem_cons.mp hMem with hEq | hRest
          · exact Or.inl hEq
          · exact Or.inr (List.mem_cons_of_mem _ hRest)
        · rcases List.mem_cons.mp hMem with hEq | hRest
          · exact Or.inr (hEq ▸ List.mem_cons_self)
          · rcases ih hRest with hEq | hOld
            · exact Or.inl hEq
            · exact Or.inr (List.mem_cons_of_mem _ hOld)

/- The value under a name is listed under it. -/
theorem mem_of_find?
    {entries : Entries α}
    {name : String}
    {value : α}
    (hFind : find? entries name = some value) :
    (name, value) ∈ entries := by
  induction entries with
  | nil => cases hFind
  | cons entry rest ih =>
      rcases entry with ⟨key, first⟩
      rw [find?] at hFind
      split at hFind
      · rename_i hKey
        cases hFind
        rw [hKey]
        exact List.mem_cons_self
      · exact List.mem_cons_of_mem _ (ih hFind)

end Entries

namespace Update

------------------------------------------------------------
-- Single Writes
------------------------------------------------------------

variable {update after : Update}

/- All maps of a section are well-formed one by one. -/
theorem allWellFormed_iff
    {maps : List (String × Update)} :
    AllWellFormed maps ↔
      ∀ entry ∈ maps, entry.2.WellFormed := by
  induction maps with
  | nil =>
      constructor
      · intro _ entry hEntry
        cases hEntry
      · intro _
        trivial
  | cons entry rest ih =>
      rw [AllWellFormed, ih, List.forall_mem_cons]

/- The sections ascend, and all maps are well-formed. -/
theorem wellFormed_iff :
    update.WellFormed ↔
      Entries.Ascending update.registers ∧
      Entries.Ascending update.counters ∧
      Entries.Ascending update.adds ∧
      Entries.Ascending update.removes ∧
      Entries.Ascending update.flags ∧
      Entries.Ascending update.maps ∧
      ∀ entry ∈ update.maps, entry.2.WellFormed := by
  rcases update
    with ⟨registers, counters, adds, removes, flags, maps⟩
  rw [WellFormed, allWellFormed_iff]

/- The update that writes nothing is well-formed. -/
theorem wellFormed_empty :
    empty.WellFormed := by
  rw [wellFormed_iff]
  refine ⟨.nil, .nil, .nil, .nil, .nil, .nil, ?_⟩
  intro entry hEntry
  cases hEntry

namespace WellFormed

/- What is written to a map within is well-formed. -/
theorem child
    (hWell : update.WellFormed)
    (name : String) :
    (update.child name).WellFormed := by
  unfold Update.child map?
  cases hMap : Entries.find? update.maps name with
  | none => exact wellFormed_empty
  | some child =>
      exact (wellFormed_iff.mp hWell).2.2.2.2.2.2 _
        (Entries.mem_of_find? hMap)

/- A well-formed child keeps an update well-formed. -/
theorem setChild
    (hWell : update.WellFormed)
    {child : Update}
    (hChild : child.WellFormed)
    (name : String) :
    (update.setChild name child).WellFormed := by
  rcases wellFormed_iff.mp hWell with
    ⟨hRegisters, hCounters, hAdds, hRemoves, hFlags, hMaps,
      hAll⟩
  refine wellFormed_iff.mpr
    ⟨hRegisters, hCounters, hAdds, hRemoves, hFlags,
      Entries.ascending_insert hMaps name child, ?_⟩
  intro entry hEntry
  rcases Entries.mem_insert hEntry with hEq | hOld
  · rw [hEq]
    exact hChild
  · exact hAll entry hOld

/- A write keeps an update well-formed. -/
theorem write
    (hWell : update.WellFormed)
    {write : Write}
    (hWrite : update.write write = .ok after) :
    after.WellFormed := by
  rcases wellFormed_iff.mp hWell with
    ⟨hRegisters, hCounters, hAdds, hRemoves, hFlags, hMaps,
      hAll⟩
  cases write with
  | register name value =>
      change update.setRegister name value = _ at hWrite
      unfold setRegister at hWrite
      split at hWrite
      · cases hWrite
      · cases hWrite
        exact wellFormed_iff.mpr
          ⟨Entries.ascending_insert hRegisters name value,
            hCounters, hAdds, hRemoves, hFlags, hMaps, hAll⟩
  | increment name amount =>
      change update.increment name amount = _ at hWrite
      unfold increment at hWrite
      simp only at hWrite
      split at hWrite
      · cases hWrite
      · rename_i sum _
        cases hWrite
        exact wellFormed_iff.mpr
          ⟨hRegisters,
            Entries.ascending_insert hCounters name sum,
            hAdds, hRemoves, hFlags, hMaps, hAll⟩
  | add name member =>
      change update.addMember name member = _ at hWrite
      unfold addMember at hWrite
      split at hWrite
      · cases hWrite
      · cases hWrite
        exact wellFormed_iff.mpr
          ⟨hRegisters, hCounters,
            Entries.ascending_insert hAdds name _, hRemoves,
            hFlags, hMaps, hAll⟩
  | remove name member =>
      cases hWrite
      exact wellFormed_iff.mpr
        ⟨hRegisters, hCounters, hAdds,
          Entries.ascending_insert hRemoves name _, hFlags,
          hMaps, hAll⟩
  | flag name state =>
      cases hWrite
      exact wellFormed_iff.mpr
        ⟨hRegisters, hCounters, hAdds, hRemoves,
          Entries.ascending_insert hFlags name state, hMaps,
          hAll⟩
  | map name =>
      cases hWrite
      exact hWell.setChild (hWell.child name) name

/- Several writes keep an update well-formed. -/
theorem foldlM_write
    (hWell : update.WellFormed)
    {writes : List Write}
    (hWrites :
      writes.foldlM Update.write update = .ok after) :
    after.WellFormed :=
  foldlM_induction WellFormed
    (fun _ _ _ _ hWell hWrite => hWell.write hWrite)
    hWell hWrites

/- A register of a document keeps an update well-formed. -/
theorem writeRegister
    (hWell : update.WellFormed)
    {name : String}
    {value : Bytes}
    (hWrite : update.writeRegister name value = .ok after) :
    after.WellFormed :=
  @WellFormed.write update after hWell (.register name value)
    (EncodeFailure.ofAbort_eq_ok_iff.mp hWrite)

/- A list of a document keeps an update well-formed. -/
theorem writeItems
    (hWell : update.WellFormed)
    {name : String}
    {element : Element}
    {items : List element.Value}
    (hWrite :
      update.writeItems name element items = .ok after) :
    after.WellFormed := by
  have hMembers :
      items.foldlM
          (fun update item =>
            update.writeElement name element item)
          update = .ok after →
        after.WellFormed := by
    intro hFold
    rcases foldlM_writeElement_eq_ok_iff.mp hFold
      with ⟨_, _, hAfter⟩
    exact hWell.foldlM_write hAfter
  unfold Update.writeItems at hWrite
  split at hWrite
  · exact hWell.writeRegister hWrite
  · exact hMembers hWrite
  · exact hMembers hWrite
  · cases hWrite

end WellFormed

end Update

------------------------------------------------------------
-- Documents
------------------------------------------------------------

mutual
/- A value written keeps an update well-formed. -/
theorem FieldType.wellFormed_of_encode :
    (type : FieldType) → {value : type.Value} →
      {name : String} → {update after : Update} →
      update.WellFormed →
      type.encode value name update = .ok after →
      after.WellFormed
  | .int _, _, _, _, _, hWell, hEncode =>
      hWell.writeRegister hEncode
  | .text, _, _, _, _, hWell, hEncode =>
      hWell.writeRegister hEncode
  | .bool, value, name, update, _, hWell, hEncode => by
      refine @Update.WellFormed.write update _ hWell
        (.flag name value) ?_
      cases hEncode
      rfl
  | .timestamp, _, _, _, _, hWell, hEncode =>
      hWell.writeRegister hEncode
  | .float32, _, _, _, _, _, hEncode => by
      cases hEncode
  | .float64, _, _, _, _, _, hEncode => by
      cases hEncode
  | .char, _, _, _, _, _, hEncode => by
      cases hEncode
  | .slot _, _, _, _, _, hWell, hEncode =>
      hWell.foldlM_write
        (EncodeFailure.ofAbort_eq_ok_iff.mp hEncode)
  | .list _, _, _, _, _, hWell, hEncode =>
      hWell.writeItems hEncode
  | .array element _, items, name, update, _, hWell,
    hEncode => by
      change update.writeArray name element items.val = _
        at hEncode
      unfold Update.writeArray at hEncode
      split at hEncode
      · cases hEncode
      · exact hWell.writeRegister hEncode
  | .document schema, _, name, update, _, hWell,
    hEncode => by
      rw [FieldType.encode, bind_eq_ok_iff] at hEncode
      rcases hEncode with ⟨child, hChild, hAfter⟩
      cases hAfter
      have hInner :=
        schema.wellFormed_of_encode (hWell.child name) hChild
      exact hWell.setChild hInner name
  | .table _ _ value, _, name, update, _, hWell,
    hEncode => by
      rw [FieldType.encode, bind_eq_ok_iff] at hEncode
      rcases hEncode with ⟨child, hChild, hAfter⟩
      cases hAfter
      have hInner :=
        foldlM_induction Update.WellFormed
          (fun _ _ _ _ hWell hEntry =>
            value.wellFormed_of_encode hWell hEntry)
          (hWell.child name) hChild
      exact hWell.setChild hInner name

/- A document written keeps an update well-formed. -/
theorem Schema.wellFormed_of_encode :
    (schema : Schema) → {document : schema.Document} →
      {update after : Update} →
      update.WellFormed →
      schema.encode document update = .ok after →
      after.WellFormed
  | .nil, _, _, _, hWell, hEncode => by
      cases hEncode
      exact hWell
  | .stored _ _ type rest, (_, _), _, _, hWell,
    hEncode => by
      rw [Schema.encode, bind_eq_ok_iff] at hEncode
      rcases hEncode with ⟨middle, hMiddle, hAfter⟩
      have hFirst := type.wellFormed_of_encode hWell hMiddle
      exact rest.wellFormed_of_encode hFirst hAfter
  | .skipped _ _ rest, (_, _), _, _, hWell, hEncode =>
      rest.wellFormed_of_encode hWell hEncode
  | .context _ rest, (_, _), _, _, hWell, hEncode =>
      rest.wellFormed_of_encode hWell hEncode
end

end CrdtDoc
