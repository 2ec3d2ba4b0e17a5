import CrdtDoc.Proofs.FilteredUpdate
import CrdtDoc.Proofs.Retention

/-
  This file shows that a filter cuts an update down to the
  fields it lets through, at every depth, and to no less and
  no more.  So what is said of the filtered update as a whole,
  that it is empty or that it removes members, is said of the
  fields of the update that are let through.

  Key definitions include:
    * `Filter.Projects`

  Main declarations:
    * `Update.isEmpty_iff`
    * `Update.removes_iff`
    * `Filter.projects_apply`
-/

namespace CrdtDoc

/- A section without a value under any name has no entries. -/
theorem Entries.eq_nil_of_find?
    {α : Type}
    {entries : Entries α}
    (hNone : ∀ name, find? entries name = none) :
    entries = [] := by
  cases entries with
  | nil => rfl
  | cons entry rest =>
      have hFirst := hNone entry.1
      rw [find?, if_pos rfl] at hFirst
      cases hFirst

namespace Update

variable {update : Update}

------------------------------------------------------------
-- Fields
------------------------------------------------------------

/- In an ordered update, each child stands under its name. -/
theorem WellFormed.map?_eq_some_iff
    (hWell : update.WellFormed)
    {name : String}
    {child : Update} :
    update.map? name = some child ↔
      (name, child) ∈ update.maps := by
  have hMaps := (wellFormed_iff.mp hWell).2.2.2.2.2.1
  exact ⟨Entries.mem_of_find?, hMaps.find?_of_mem⟩

/- What is written nowhere is written to no map within. -/
theorem isEmpty_child
    (hEmpty : update.isEmpty = true)
    (name : String) :
    (update.child name).isEmpty = true := by
  rcases update
    with ⟨registers, counters, adds, removes, flags, maps⟩
  rw [isEmpty, Bool.and_eq_true] at hEmpty
  rw [child, map?]
  have hMaps := hEmpty.2
  clear hEmpty
  induction maps with
  | nil => rfl
  | cons entry rest ih =>
      rw [allEmpty, Bool.and_eq_true] at hMaps
      rw [Entries.find?]
      split
      · exact hMaps.1
      · exact ih hMaps.2

/- An empty update has no field, at any depth. -/
theorem leaf_of_isEmpty
    (hEmpty : update.isEmpty = true)
    (path : List String)
    (name : String) :
    update.leaf path name = .none := by
  induction path generalizing update with
  | nil =>
      rcases update
        with ⟨registers, counters, adds, removes, flags, maps⟩
      simp only [isEmpty, Bool.and_eq_true,
        List.isEmpty_iff] at hEmpty
      rcases hEmpty
        with ⟨⟨⟨⟨⟨rfl, rfl⟩, rfl⟩, rfl⟩, rfl⟩, _⟩
      rfl
  | cons first rest ih =>
      rw [leaf_cons]
      exact ih (isEmpty_child hEmpty first)

mutual
/- An ordered update without fields is empty. -/
theorem isEmpty_of_leaf :
    (update : Update) → update.WellFormed →
      (∀ path name, update.leaf path name = .none) →
      update.isEmpty = true
  | ⟨registers, counters, adds, removes, flags, maps⟩, hWell,
    hLeaf => by
      have hHere := hLeaf []
      have hRegisters : registers = [] :=
        Entries.eq_nil_of_find? fun name =>
          congrArg Entry.register (hHere name)
      have hCounters : counters = [] :=
        Entries.eq_nil_of_find? fun name =>
          congrArg Entry.counter (hHere name)
      have hAdds : adds = [] :=
        Entries.eq_nil_of_find? fun name =>
          congrArg Entry.adds (hHere name)
      have hRemoves : removes = [] :=
        Entries.eq_nil_of_find? fun name =>
          congrArg Entry.removes (hHere name)
      have hFlags : flags = [] :=
        Entries.eq_nil_of_find? fun name =>
          congrArg Entry.flag (hHere name)
      have hMaps : allEmpty maps = true := by
        refine allEmpty_of_leaf maps hWell.2.2.2.2.2.2 ?_
        intro entry hEntry path name
        have hChild := hWell.map?_eq_some_iff.mpr hEntry
        have hWithin := hLeaf (entry.1 :: path) name
        rwa [leaf_cons, child, hChild] at hWithin
      rw [isEmpty, hRegisters, hCounters, hAdds, hRemoves,
        hFlags, hMaps]
      rfl

/- The maps of a section without fields are all empty. -/
theorem allEmpty_of_leaf :
    (maps : List (String × Update)) → AllWellFormed maps →
      (∀ entry ∈ maps, ∀ path name,
        entry.2.leaf path name = .none) →
      allEmpty maps = true
  | [], _, _ => rfl
  | (name, update) :: rest, hAll, hLeaf => by
      have hFirst :=
        isEmpty_of_leaf update hAll.1
          (hLeaf (name, update) List.mem_cons_self)
      have hRest :=
        allEmpty_of_leaf rest hAll.2 fun entry hEntry =>
          hLeaf entry (List.mem_cons_of_mem _ hEntry)
      rw [allEmpty, hFirst, hRest]
      rfl
end

/- An ordered update is empty if and only if it has no field. -/
theorem isEmpty_iff
    (hWell : update.WellFormed) :
    update.isEmpty = true ↔
      ∀ path name, update.leaf path name = .none :=
  ⟨leaf_of_isEmpty, isEmpty_of_leaf update hWell⟩

/- A member is listed for removal by the field of its set. -/
theorem removes_iff
    (hWell : update.WellFormed)
    {path : List String}
    {name : String}
    {member : Bytes} :
    update.Removes path name member ↔
      member ∈ (update.leaf path name).removes.getD [] := by
  induction path generalizing update with
  | nil =>
      have hRemoves := (wellFormed_iff.mp hWell).2.2.2.1
      change _ ↔ member ∈ (update.removes? name).getD []
      constructor
      · rintro ⟨removed, hEntry, hMember⟩
        rw [removes?, hRemoves.find?_of_mem hEntry]
        exact hMember
      · intro hMember
        cases hFind : update.removes? name with
        | none =>
            rw [hFind] at hMember
            cases hMember
        | some removed =>
            rw [hFind] at hMember
            exact
              ⟨removed, Entries.mem_of_find? hFind, hMember⟩
  | cons first rest ih =>
      rw [leaf_cons, ← ih (hWell.child first), Removes]
      constructor
      · rintro ⟨child, hEntry, hRemoves⟩
        rw [Update.child, hWell.map?_eq_some_iff.mpr hEntry]
        exact hRemoves
      · intro hRemoves
        cases hChild : update.map? first with
        | none =>
            rw [ih (hWell.child first), child, hChild,
              Option.getD_none, leaf_empty] at hRemoves
            cases hRemoves
        | some child =>
            rw [Update.child, hChild] at hRemoves
            exact
              ⟨child, hWell.map?_eq_some_iff.mp hChild,
                hRemoves⟩

end Update

------------------------------------------------------------
-- Projections
------------------------------------------------------------

namespace Filter

variable {update : Update}

/-
  A part of an update has all of its maps, and of its fields
  those that a filter lets through.  These fields decide
  whether it is empty and whether it removes members.
-/
structure Projects
    (filter : Filter)
    (update part : Update) : Prop where
  maps :
    ∀ path, (part.at? path).isSome ↔ (update.at? path).isSome
  leaf :
    ∀ path name,
      part.leaf path name =
        if filter.allows (path ++ [name]) then
          update.leaf path name
        else .none
  isEmpty :
    part.isEmpty = true ↔
      ¬∃ path name,
        filter.allows (path ++ [name]) = true ∧
        update.leaf path name ≠ .none
  removesMembers :
    part.removesMembers = true ↔
      ∃ path name member,
        filter.allows (path ++ [name]) = true ∧
        member ∈ (update.leaf path name).removes.getD []

/- A filtered update is empty if all fields are held back. -/
theorem isEmpty_apply_iff
    (hWell : update.WellFormed)
    (filter : Filter) :
    (filter.apply update).isEmpty = true ↔
      ¬∃ path name,
        filter.allows (path ++ [name]) = true ∧
        update.leaf path name ≠ .none := by
  have hPart : (filter.apply update).WellFormed :=
    wellFormed_applyAt update hWell []
  rw [Update.isEmpty_iff hPart]
  simp only [apply, leaf_applyAt, List.nil_append,
    ite_eq_right_iff, not_exists, not_and, not_not]

/- It removes members if a field that it keeps does. -/
theorem removesMembers_apply_iff
    (hWell : update.WellFormed)
    (filter : Filter) :
    (filter.apply update).removesMembers = true ↔
      ∃ path name member,
        filter.allows (path ++ [name]) = true ∧
        member ∈ (update.leaf path name).removes.getD [] := by
  have hPart : (filter.apply update).WellFormed :=
    wellFormed_applyAt update hWell []
  rw [Update.removesMembers_iff]
  refine exists_congr fun path => exists_congr fun name =>
    exists_congr fun member => ?_
  rw [Update.removes_iff hPart, apply, leaf_applyAt,
    List.nil_append]
  split
  · rename_i hAllows
    exact (and_iff_right hAllows).symm
  · rename_i hAllows
    exact iff_of_false List.not_mem_nil
      fun hBoth => hAllows hBoth.1

/-
  A filtered update is the part that the filter lets through.
  The filter that lists nothing lets the whole update through.
-/
theorem projects_apply
    (hWell : update.WellFormed)
    (filter : Filter) :
    filter.Projects update (filter.apply update) ∧
    all.apply update = update ∧
    (all.apply update).isEmpty = update.isEmpty := by
  refine ⟨⟨?maps, ?leaf, ?isEmpty, ?removes⟩, apply_all update,
    by rw [apply_all]⟩
  case maps =>
    intro path
    rw [apply, isSome_at?_applyAt]
  case leaf =>
    intro path name
    rw [apply, leaf_applyAt, List.nil_append]
  case isEmpty => exact isEmpty_apply_iff hWell filter
  case removes => exact removesMembers_apply_iff hWell filter

/- A longer start lets through what a shorter one holds back. -/
theorem projects_apply_longest :
    let inner : Update :=
      { Update.empty with
        adds := [("s", [])]
        removes := [("s", [[1]])]
        maps := [("new", .empty)] }
    let update : Update :=
      { Update.empty with
        registers := [("s", [7])]
        removes := [("t", [])]
        maps := [("in", inner)] }
    let filter : Filter := ⟨[["in", "s"]], [["in"], ["s"]]⟩
    update.WellFormed ∧
    filter.Projects update (filter.apply update) ∧
    all.apply update = update ∧
    (all.apply update).isEmpty = update.isEmpty := by
  intro inner update filter
  have hWell : update.WellFormed := by
    simp [update, inner, Update.WellFormed,
      Update.AllWellFormed, Entries.Ascending, Update.empty]
  exact ⟨hWell, projects_apply hWell filter⟩

end Filter

end CrdtDoc
