import CrdtDoc.Filter
import CrdtDoc.Proofs.DocumentView

/-
  This file shows that a filtered update is a part of the
  update: it writes the same entries where the filter lets
  them through, nothing where it does not, and it makes the
  same maps.

  Key definitions include:
    * `Filter.Selects`

  Main declarations:
    * `Filter.apply_all`
    * `Filter.leaf_applyAt`
    * `Filter.isSome_at?_applyAt`
    * `Filter.exists_selects_of_apply`
-/

namespace CrdtDoc

namespace Filter

variable {filter : Filter} {update : Update}

------------------------------------------------------------
-- Sections
------------------------------------------------------------

/- The filter that lists nothing lets every field through. -/
theorem all_allows
    (path : List String) :
    all.allows path = true := by
  rfl

/- What is let through is found where it is let through. -/
theorem find?_keep
    {α : Type}
    (filter : Filter)
    (start : List String)
    (entries : Entries α)
    (name : String) :
    Entries.find? (filter.keep start entries) name =
      if filter.allows (start ++ [name]) then
        Entries.find? entries name
      else none := by
  unfold keep
  induction entries with
  | nil => simp [Entries.find?]
  | cons entry rest ih =>
      rcases entry with ⟨key, value⟩
      rw [List.filter_cons]
      by_cases hKey : key = name
      · subst hKey
        split
        · simp [Entries.find?]
        · rename_i hAllows
          rw [ih, if_neg hAllows]
      · rw [Entries.find?, if_neg hKey, ← ih]
        split
        · rw [Entries.find?, if_neg hKey]
        · rfl

/- The maps of a section all remain, with what they keep. -/
theorem find?_applyAll
    (filter : Filter)
    (start : List String)
    (maps : Entries Update)
    (name : String) :
    Entries.find? (filter.applyAll start maps) name =
      (Entries.find? maps name).map
        (filter.applyAt (start ++ [name])) := by
  induction maps with
  | nil => rfl
  | cons entry rest ih =>
      rcases entry with ⟨key, update⟩
      rw [applyAll, Entries.find?, Entries.find?, ih]
      by_cases hKey : key = name
      · subst hKey
        rw [if_pos rfl, if_pos rfl]
        rfl
      · rw [if_neg hKey, if_neg hKey]

/- The maps of a section keep their names. -/
theorem names_applyAll
    (filter : Filter)
    (start : List String)
    (maps : List (String × Update)) :
    (filter.applyAll start maps).map Prod.fst =
      maps.map Prod.fst := by
  induction maps with
  | nil => rfl
  | cons entry rest ih =>
      rw [applyAll, List.map_cons, List.map_cons, ih]

/- Some of the fields of a section are in the same order. -/
theorem ascending_keep
    {α : Type}
    {entries : Entries α}
    (hAsc : Entries.Ascending entries)
    (start : List String) :
    Entries.Ascending (filter.keep start entries) :=
  List.Pairwise.filter _ hAsc

------------------------------------------------------------
-- Updates
------------------------------------------------------------

mutual
/- The filter that lists nothing keeps an update as it is. -/
theorem applyAt_all :
    (update : Update) → (start : List String) →
      all.applyAt start update = update
  | ⟨registers, counters, adds, removes, flags, maps⟩,
    start => by
      have hKeep :
          ∀ {α : Type} (entries : Entries α),
            all.keep start entries = entries := by
        intro α entries
        exact List.filter_eq_self.mpr
          fun entry _ => all_allows (start ++ [entry.1])
      rw [applyAt]
      simp only [hKeep, applyAll_all maps start]

/- It keeps the maps of a section as they are. -/
theorem applyAll_all :
    (maps : List (String × Update)) →
      (start : List String) →
      all.applyAll start maps = maps
  | [], _ => rfl
  | (name, update) :: rest, start => by
      rw [applyAll, applyAt_all update, applyAll_all rest]
end

/- The filter that lists nothing lets an update through. -/
theorem apply_all
    (update : Update) :
    all.apply update = update :=
  applyAt_all update []

mutual
/- What is let through of an update is well-formed. -/
theorem wellFormed_applyAt :
    (update : Update) → update.WellFormed →
      (start : List String) →
      (filter.applyAt start update).WellFormed
  | ⟨registers, counters, adds, removes, flags, maps⟩,
    hWell, start => by
      rcases hWell
        with ⟨hRegisters, hCounters, hAdds, hRemoves, hFlags,
          hMaps, hAll⟩
      have hMaps' :
          Entries.Ascending (filter.applyAll start maps) := by
        have hNames := List.pairwise_map.mpr hMaps
        rw [← filter.names_applyAll start maps] at hNames
        exact List.pairwise_map.mp hNames
      rw [applyAt]
      exact
        ⟨ascending_keep hRegisters start,
          ascending_keep hCounters start,
          ascending_keep hAdds start,
          ascending_keep hRemoves start,
          ascending_keep hFlags start, hMaps',
          allWellFormed_applyAll maps hAll start⟩

/- What is let through of maps is well-formed. -/
theorem allWellFormed_applyAll :
    (maps : List (String × Update)) →
      Update.AllWellFormed maps →
      (start : List String) →
      Update.AllWellFormed (filter.applyAll start maps)
  | [], _, _ => trivial
  | (name, update) :: rest, hAll, start =>
      ⟨wellFormed_applyAt update hAll.1 (start ++ [name]),
        allWellFormed_applyAll rest hAll.2 start⟩
end

/- What is let through of a map under a name. -/
theorem map?_applyAt
    (filter : Filter)
    (start : List String)
    (update : Update)
    (name : String) :
    (filter.applyAt start update).map? name =
      (update.map? name).map
        (filter.applyAt (start ++ [name])) := by
  rcases update
    with ⟨registers, counters, adds, removes, flags, maps⟩
  rw [applyAt]
  exact filter.find?_applyAll start maps name

/- Nothing is let through of nothing. -/
theorem applyAt_empty
    (filter : Filter)
    (start : List String) :
    filter.applyAt start .empty = .empty := by
  rw [Update.empty, applyAt, applyAll]
  rfl

/- What is let through of the map of a name, if any. -/
theorem child_applyAt
    (filter : Filter)
    (start : List String)
    (update : Update)
    (name : String) :
    (filter.applyAt start update).child name =
      filter.applyAt (start ++ [name])
        (update.child name) := by
  rw [Update.child, Update.child, map?_applyAt]
  cases update.map? name with
  | none => exact (filter.applyAt_empty _).symm
  | some inner => rfl

/- An entry is written as before, or not at all. -/
theorem leaf_applyAt
    (filter : Filter)
    (start : List String)
    (update : Update)
    (path : List String)
    (name : String) :
    (filter.applyAt start update).leaf path name =
      if filter.allows (start ++ path ++ [name]) then
        update.leaf path name
      else .none := by
  induction path generalizing start update with
  | nil =>
      rcases update
        with ⟨registers, counters, adds, removes, flags, maps⟩
      rw [applyAt, List.append_nil]
      simp only [Update.leaf, Update.reach, Update.at?,
        Option.getD_some, Update.entry, Update.register?,
        Update.counter?, Update.adds?, Update.removes?,
        Update.flag?, find?_keep]
      split <;> rfl
  | cons first rest ih =>
      rw [Update.leaf_cons, child_applyAt, ih,
        Update.leaf_cons, List.append_assoc start [first]]
      rfl

/- All maps of an update remain. -/
theorem isSome_at?_applyAt
    (filter : Filter)
    (start : List String)
    (update : Update)
    (path : List String) :
    ((filter.applyAt start update).at? path).isSome =
      (update.at? path).isSome := by
  induction path generalizing start update with
  | nil => rfl
  | cons first rest ih =>
      rw [Update.at?, Update.at?, map?_applyAt]
      cases update.map? first with
      | none => rfl
      | some inner => exact ih _ inner

------------------------------------------------------------
-- Documents
------------------------------------------------------------

/-
  A document is updated in part: its entries are those of
  the updated one where the filter lets them through, and
  else those before.  All maps are there.
-/
structure Selects
    (filter : Filter)
    (before full part : CrdtMap) : Prop where
  leaf :
    ∀ path name,
      part.leaf path name =
        if filter.allows (path ++ [name]) then
          full.leaf path name
        else before.leaf path name
  maps :
    ∀ path,
      (part.at? path).isSome ↔ (full.at? path).isSome

/- A filtered update can be made if the whole one can. -/
theorem fits_apply
    {map : CrdtMap}
    (hFits : update.Fits map)
    (filter : Filter) :
    (filter.apply update).Fits map := by
  intro path name amount hAmount
  rw [apply, leaf_applyAt] at hAmount
  split at hAmount
  · exact hFits path name amount hAmount
  · cases hAmount

/-
  If an update can be made, so can what a filter lets
  through of it, and it updates the document in part.
-/
theorem exists_selects_of_apply
    (hWell : update.WellFormed)
    {map full : CrdtMap}
    (hFull : (all.apply update).apply map = .ok full)
    (filter : Filter) :
    ∃ part,
      (filter.apply update).apply map = .ok part ∧
      filter.Selects map full part := by
  rw [apply_all] at hFull
  have hPart : (filter.apply update).WellFormed :=
    wellFormed_applyAt update hWell []
  have hFits :=
    (Update.exists_apply_iff hWell).mp ⟨full, hFull⟩
  rcases (Update.exists_apply_iff hPart).mpr
    (fits_apply hFits filter) with ⟨part, hApply⟩
  refine ⟨part, hApply, ?_, ?_⟩
  · intro path name
    have hMakes :=
      Update.makes_leaf_of_apply hPart hApply path name
    rw [apply, leaf_applyAt, List.nil_append] at hMakes
    split at hMakes
    · rename_i hAllows
      rw [if_pos hAllows]
      exact hMakes.unique
        (Update.makes_leaf_of_apply hWell hFull path name)
    · rename_i hAllows
      rw [if_neg hAllows]
      exact hMakes.eq_of_none
  · intro path
    rw [Update.isSome_at?_of_apply hPart hApply,
      Update.isSome_at?_of_apply hWell hFull, apply,
      isSome_at?_applyAt]

/- A counter is held back where its map is let through. -/
theorem exists_selects_of_apply_within :
    let five : Integer .i64 := ⟨5, by decide, by decide⟩
    let inner : Update :=
      { Update.empty with
        counters := [("n", five)]
        adds := [("s", [[2], [1]])]
        removes := [("s", [[3]])]
        maps := [("new", .empty)] }
    let update : Update :=
      { Update.empty with
        flags := [("f", true)]
        maps := [("in", inner)] }
    let old : CrdtMap :=
      { CrdtMap.empty with sets := [("s", [[3], [4]])] }
    let map : CrdtMap :=
      { CrdtMap.empty with
        flags := [("f", false)]
        maps := [("in", old)] }
    let full : CrdtMap :=
      { CrdtMap.empty with
        flags := [("f", true)]
        maps :=
          [("in",
            { CrdtMap.empty with
              counters := [("n", five)]
              sets := [("s", [[1], [2], [4]])]
              maps := [("new", .empty)] })] }
    let filter : Filter := ⟨[["in"]], [["in", "n"]]⟩
    (update.WellFormed ∧
      (all.apply update).apply map = .ok full) ∧
    ∃ part,
      (filter.apply update).apply map = .ok part ∧
      filter.Selects map full part := by
  intro five inner update old map full filter
  have hWell : update.WellFormed := by
    simp [update, inner, Update.WellFormed,
      Update.AllWellFormed, Entries.Ascending, Update.empty]
  have hFull :
      (all.apply update).apply map = .ok full := by
    cbv
  exact
    ⟨⟨hWell, hFull⟩, exists_selects_of_apply hWell hFull filter⟩

end Filter

end CrdtDoc
