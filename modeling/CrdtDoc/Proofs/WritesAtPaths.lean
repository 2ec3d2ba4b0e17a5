import CrdtDoc.Proofs.DocumentView
import Mathlib.Data.List.Induction

/-
  This file describes what a write at a path makes of an
  update: it is made to the entry of its name at its path,
  no other entry changes, and the maps along its path are
  there afterwards.

  Key definitions include:
    * `Write.mapPath`
    * `Update.Entry.withoutMap`
    * `Update.Entry.Writes`

  Main declarations:
    * `Update.leaf_writeAt`
    * `Update.isSome_at?_writeAt`
    * `Update.WellFormed.writeAll`
    * `Update.add_mem_of_writeAll`
-/

namespace CrdtDoc

/- The maps that are there after a write at a path. -/
def Write.mapPath
    (write : Write)
    (path : List String) : List String :=
  match write with
  | .map name => path ++ [name]
  | _ => path

/- An entry apart from its map. -/
def Update.Entry.withoutMap
    (entry : Update.Entry) : Update.Entry :=
  { entry with map := .none }

namespace Update

variable {update after : Update} {write : Write}

------------------------------------------------------------
-- Single Writes
------------------------------------------------------------

/- All that a write can make of the entry of its name. -/
inductive Entry.Writes
    (entry : Entry) : Write → Entry → Prop where
  | register (name : String) (value : Bytes)
      (hAdds : ¬entry.adds.isSome) :
      Writes entry (.register name value)
        { entry with register := some value }
  | increment (name : String) (amount sum : Integer .i64)
      (hSum :
        (entry.counter.getD .zero).add? amount = some sum) :
      Writes entry (.increment name amount)
        { entry with counter := some sum }
  | add (name : String) (member : Bytes)
      (hRegister : ¬entry.register.isSome) :
      Writes entry (.add name member)
        { entry with
          adds :=
            some (withMember (entry.adds.getD []) member) }
  | remove (name : String) (member : Bytes) :
      Writes entry (.remove name member)
        { entry with
          removes :=
            some (entry.removes.getD [] ++ [member]) }
  | flag (name : String) (state : Bool) :
      Writes entry (.flag name state)
        { entry with flag := some state }
  | map (name : String) :
      Writes entry (.map name)
        { entry with map := some (entry.map.getD empty) }

/- A write that was made is one of these. -/
theorem Entry.writes_of_write
    {entry later : Entry}
    (hWrite : entry.write write = .ok later) :
    entry.Writes write later := by
  cases write with
  | register name value =>
      rw [Entry.write] at hWrite
      split at hWrite
      · cases hWrite
      · rename_i hAdds
        cases hWrite
        exact .register name value hAdds
  | increment name amount =>
      rw [Entry.write] at hWrite
      split at hWrite
      · cases hWrite
      · rename_i sum hSum
        cases hWrite
        exact .increment name amount sum hSum
  | add name member =>
      rw [Entry.write] at hWrite
      split at hWrite
      · cases hWrite
      · rename_i hRegister
        cases hWrite
        exact .add name member hRegister
  | remove name member =>
      cases hWrite
      exact .remove name member
  | flag name state =>
      cases hWrite
      exact .flag name state
  | map name =>
      cases hWrite
      exact .map name

/- A write that was made was made to the entry of its name. -/
theorem exists_replaces_of_write
    (hWrite : update.write write = .ok after) :
    ∃ entry,
      (update.entry write.name).write write = .ok entry ∧
      Replaces write.name entry update after := by
  have hFold :
      [write].foldlM Update.write update = .ok after := by
    rw [List.foldlM_cons, hWrite]
    rfl
  have hName :
      ∀ other ∈ [write], other.name = write.name := by
    intro other hOther
    rw [List.mem_singleton.mp hOther]
  rcases replaces_of_foldlM_write hName hFold
    with ⟨entry, hEntry, hReplaces⟩
  rw [List.foldlM_cons, bind_eq_ok_iff] at hEntry
  rcases hEntry with ⟨_, hEntry, hDone⟩
  cases hDone
  exact ⟨entry, hEntry, hReplaces⟩

/- A write to an entry does not depend on its map. -/
theorem Entry.exists_write_withoutMap
    {entry later : Entry}
    (hWrite : entry.write write = .ok later) :
    ∃ made,
      entry.withoutMap.write write = .ok made ∧
      made.withoutMap = later.withoutMap := by
  cases writes_of_write hWrite with
  | register name value hAdds =>
      exact ⟨_, if_neg hAdds, rfl⟩
  | increment name amount sum hSum =>
      refine ⟨{ entry.withoutMap with counter := some sum },
        ?_, rfl⟩
      rw [Entry.write, withoutMap, hSum]
  | add name member hRegister =>
      exact ⟨_, if_neg hRegister, rfl⟩
  | remove name member => exact ⟨_, rfl, rfl⟩
  | flag name state => exact ⟨_, rfl, rfl⟩
  | map name => exact ⟨_, rfl, rfl⟩

/- A member to be added was added before, or is written. -/
theorem Entry.mem_adds_of_write
    {entry later : Entry}
    (hWrite : entry.write write = .ok later)
    {member : Bytes}
    (hMember : member ∈ later.adds.getD []) :
    member ∈ entry.adds.getD [] ∨
      write = .add write.name member := by
  cases writes_of_write hWrite with
  | add name added hRegister =>
      rcases mem_withMember.mp hMember with hOld | hNew
      · exact Or.inl hOld
      · exact Or.inr (hNew ▸ rfl)
  | _ => exact Or.inl hMember

/- A write to an entry leaves its map, or makes one. -/
theorem Entry.map_of_write
    {entry later : Entry}
    (hWrite : entry.write write = .ok later) :
    later.map =
      if write = .map write.name then
        some (entry.map.getD empty)
      else entry.map := by
  cases writes_of_write hWrite with
  | map name => exact (if_pos rfl).symm
  | _ => exact (if_neg nofun).symm

/- A write makes a map under its own name, if it makes one. -/
theorem map?_of_write
    (hWrite : update.write write = .ok after)
    (name : String) :
    after.map? name =
      if write = .map name then some (update.child name)
      else update.map? name := by
  rcases exists_replaces_of_write hWrite
    with ⟨entry, hEntry, hReplaces⟩
  have hMap :
      after.map? name =
        if write.name = name then entry.map
        else update.map? name := by
    have hName := congrArg Entry.map (hReplaces name)
    split at hName
    · rename_i hEq
      rw [if_pos hEq]
      exact hName
    · rename_i hNe
      rw [if_neg hNe]
      exact hName
  rw [hMap, Entry.map_of_write hEntry]
  by_cases hName : write.name = name
  · subst hName
    rw [if_pos rfl]
    rfl
  · rw [if_neg hName, if_neg]
    intro hWrite
    exact hName (hWrite ▸ rfl)

/- The update of a map within is the same after a write. -/
theorem child_of_write
    (hWrite : update.write write = .ok after)
    (name : String) :
    after.child name = update.child name := by
  rw [child, map?_of_write hWrite]
  split <;> rfl

------------------------------------------------------------
-- Writes at Paths
------------------------------------------------------------

/- The update of a map within after another one is put. -/
theorem child_setChild
    (update inner : Update)
    (name other : String) :
    (update.setChild name inner).child other =
      if name = other then inner else update.child other := by
  rw [setChild, child, map?, Entries.find?_insert]
  split <;> rfl

/- A path leads into the map of its first name, if there. -/
theorem isSome_at?_child
    (update : Update)
    (name : String)
    (rest : List String) :
    ((update.child name).at? rest).isSome ↔
      (update.at? (name :: rest)).isSome ∨ rest = [] := by
  rw [child, at?]
  cases update.map? name with
  | none => cases rest <;> simp [at?, map?, empty, Entries.find?]
  | some inner =>
      cases rest with
      | nil => simp [at?]
      | cons first others => simp

/-
  A write at a path is made to the entry of its name there,
  and no other entry changes.
-/
theorem leaf_writeAt
    {path : List String}
    (hWrite : update.writeAt path write = .ok after) :
    ∃ entry,
      (update.leaf path write.name).write write = .ok entry ∧
      ∀ other name,
        after.leaf other name =
          if other = path ∧ name = write.name then
            entry.withoutMap
          else update.leaf other name := by
  -- The induction is on the path, the first name of which
  -- leads to the only map within that is written to.
  induction path generalizing update after with
  | nil =>
      rcases exists_replaces_of_write hWrite
        with ⟨later, hLater, hReplaces⟩
      rcases Entry.exists_write_withoutMap hLater
        with ⟨entry, hEntry, hSame⟩
      refine ⟨entry, hEntry, ?_⟩
      intro other name
      cases other with
      | nil =>
          have hLeaf :
              after.leaf [] name =
                (after.entry name).withoutMap := by
            rfl
          rw [hLeaf, hReplaces name]
          by_cases hName : write.name = name
          · rw [if_pos hName, if_pos ⟨rfl, hName.symm⟩, hSame]
          · rw [if_neg hName, if_neg fun h => hName h.2.symm]
            rfl
      | cons first rest =>
          rw [leaf_cons, child_of_write hWrite, ← leaf_cons,
            if_neg fun h => List.cons_ne_nil _ _ h.1]
  | cons first rest ih =>
      rw [writeAt, modifyAt, bind_eq_ok_iff] at hWrite
      rcases hWrite with ⟨inner, hInner, hAfter⟩
      cases hAfter
      rcases ih hInner with ⟨entry, hEntry, hLeaf⟩
      rw [← leaf_cons] at hEntry
      refine ⟨entry, hEntry, ?_⟩
      intro other name
      cases other with
      | nil =>
          rw [if_neg fun h => List.cons_ne_nil _ _ h.1.symm]
          rfl
      | cons head tail =>
          rw [leaf_cons, child_setChild]
          by_cases hHead : first = head
          · subst hHead
            rw [if_pos rfl, hLeaf, ← leaf_cons]
            simp only [List.cons.injEq, true_and]
          · rw [if_neg hHead, ← leaf_cons, if_neg]
            intro h
            exact hHead (List.cons.inj h.1).1.symm

/-
  A write at a path makes the maps along the path, and the
  one under its name if it is a write of a map.
-/
theorem isSome_at?_writeAt
    {path : List String}
    (hWrite : update.writeAt path write = .ok after)
    (other : List String) :
    (after.at? other).isSome ↔
      (update.at? other).isSome ∨
        other <+: write.mapPath path := by
  induction path generalizing update after other with
  | nil =>
      cases other with
      | nil => simp [at?]
      | cons head tail =>
          rw [at?, map?_of_write hWrite]
          by_cases hMap : write = .map head
          · subst hMap
            rw [if_pos rfl, Write.mapPath, List.nil_append,
              List.cons_prefix_cons, List.prefix_nil,
              isSome_at?_child]
            simp
          · have hShort :
                ¬head :: tail <+: write.mapPath [] := by
              cases write with
              | map name =>
                  intro hPrefix
                  have hHead :=
                    (List.cons_prefix_cons.mp hPrefix).1
                  exact hMap (hHead ▸ rfl)
              | _ =>
                  intro hPrefix
                  cases List.prefix_nil.mp hPrefix
            rw [if_neg hMap, or_iff_left hShort]
            rfl
  | cons first rest ih =>
      rw [writeAt, modifyAt, bind_eq_ok_iff] at hWrite
      rcases hWrite with ⟨inner, hInner, hAfter⟩
      cases hAfter
      have hPath :
          write.mapPath (first :: rest) =
            first :: write.mapPath rest := by
        cases write <;> rfl
      rw [hPath]
      cases other with
      | nil => simp [at?]
      | cons head tail =>
          have hMap :
              (update.setChild first inner).map? head =
                if first = head then some inner
                else update.map? head :=
            Entries.find?_insert update.maps first head inner
          rw [at?, hMap, List.cons_prefix_cons]
          by_cases hHead : first = head
          · subst hHead
            rw [if_pos rfl]
            refine (ih hInner tail).trans ?_
            rw [isSome_at?_child, or_assoc]
            refine or_congr_right ?_
            constructor
            · rintro (hNil | hPrefix)
              · exact ⟨rfl, hNil ▸ List.nil_prefix⟩
              · exact ⟨rfl, hPrefix⟩
            · rintro ⟨_, hPrefix⟩
              exact Or.inr hPrefix
          · have hHead' : ¬head = first := fun h => hHead h.symm
            rw [if_neg hHead, or_iff_left fun h => hHead' h.1]
            rfl

------------------------------------------------------------
-- Rows of Writes
------------------------------------------------------------

/- A write at a path keeps an update well-formed. -/
theorem WellFormed.writeAt
    {path : List String}
    (hWell : update.WellFormed)
    (hWrite : update.writeAt path write = .ok after) :
    after.WellFormed := by
  induction path generalizing update after with
  | nil => exact hWell.write hWrite
  | cons first rest ih =>
      rw [Update.writeAt, modifyAt, bind_eq_ok_iff] at hWrite
      rcases hWrite with ⟨inner, hInner, hAfter⟩
      cases hAfter
      exact hWell.setChild (ih (hWell.child first) hInner) first

/- Writes at their paths keep an update well-formed. -/
theorem WellFormed.writeAll
    {writes : List (List String × Write)}
    (hWell : update.WellFormed)
    (hWrites : update.writeAll writes = .ok after) :
    after.WellFormed :=
  foldlM_induction WellFormed
    (fun _ _ _ _ hWell hWrite => hWell.writeAt hWrite)
    hWell hWrites

/- The last of several writes is made after all others. -/
theorem writeAll_concat_eq_ok_iff
    {writes : List (List String × Write)}
    {path : List String} :
    update.writeAll (writes ++ [(path, write)]) = .ok after ↔
      ∃ middle,
        update.writeAll writes = .ok middle ∧
        middle.writeAt path write = .ok after := by
  rw [writeAll, List.foldlM_append, bind_eq_ok_iff]
  simp only [List.foldlM_cons, List.foldlM_nil,
    bind_pure]
  rfl

/-
  A member that is to be added at a path was written there
  as one to be added.
-/
theorem add_mem_of_writeAll
    {writes : List (List String × Write)}
    {tree : Update}
    (hWrites : empty.writeAll writes = .ok tree)
    {path : List String}
    {name : String}
    {member : Bytes}
    (hMember : member ∈ (tree.leaf path name).adds.getD []) :
    (path, .add name member) ∈ writes := by
  induction writes using List.reverseRecOn generalizing tree with
  | nil =>
      cases hWrites
      rw [leaf_empty] at hMember
      cases hMember
  | append_singleton writes last ih =>
      rcases last with ⟨last, write⟩
      rcases writeAll_concat_eq_ok_iff.mp hWrites
        with ⟨middle, hMiddle, hLast⟩
      rcases leaf_writeAt hLast with ⟨entry, hEntry, hLeaf⟩
      have hOld :
          member ∈ (middle.leaf path name).adds.getD [] →
            (path, Write.add name member) ∈
              writes ++ [(last, write)] :=
        fun hOld =>
          List.mem_append_left _ (ih hMiddle hOld)
      rw [hLeaf] at hMember
      split at hMember
      · rename_i hAt
        rcases hAt with ⟨rfl, rfl⟩
        rcases Entry.mem_adds_of_write hEntry hMember
          with hBefore | hWrite
        · exact hOld hBefore
        · rw [← hWrite]
          exact List.mem_append_right _ List.mem_cons_self
      · exact hOld hMember

end Update

end CrdtDoc
