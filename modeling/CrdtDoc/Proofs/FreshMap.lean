import CrdtDoc.Proofs.EntryView
import CrdtDoc.Proofs.MemberOrder
import CrdtDoc.Update.Apply

/-
  This file defines the map that an update makes out of
  nothing: registers, amounts and flags as written, sets of
  the members added, and maps made in the same way.

  Key definitions include:
    * `Update.fresh`

  An update of an empty map never overflows, by:
    * `Update.apply_empty`
-/

namespace CrdtDoc

------------------------------------------------------------
-- Ascending Sections
------------------------------------------------------------

namespace Entries

variable {α : Type}

/- A name above all others is put behind them. -/
theorem insert_eq_append
    {entries : Entries α}
    {name : String}
    (hAbove : ∀ entry ∈ entries, entry.1 < name)
    (value : α) :
    insert entries name value =
      entries ++ [(name, value)] := by
  induction entries with
  | nil => rfl
  | cons entry rest ih =>
      rcases entry with ⟨key, old⟩
      have hKey : key < name :=
        hAbove (key, old) List.mem_cons_self
      have hNotLess : ¬name < key := by
        intro hLess
        exact String.lt_irrefl key
          (String.lt_trans hKey hLess)
      have hNe : ¬name = key := by
        intro hEq
        exact String.lt_irrefl key (hEq ▸ hKey)
      rw [insert, if_neg hNotLess, if_neg hNe,
        ih fun entry hMem =>
          hAbove entry (List.mem_cons_of_mem _ hMem)]
      rfl

/- In an ascending section, all names before are less. -/
theorem Ascending.lt_of_append
    {before : Entries α}
    {name : String}
    {value : α}
    {rest : Entries α}
    (hAsc : Ascending (before ++ (name, value) :: rest)) :
    ∀ entry ∈ before, entry.1 < name := by
  intro entry hMem
  exact (List.pairwise_append.mp hAsc).2.2 entry hMem
    (name, value) List.mem_cons_self

/- A name above all others has no value. -/
theorem find?_eq_none_of_lt
    {entries : Entries α}
    {name : String}
    (hAbove : ∀ entry ∈ entries, entry.1 < name) :
    find? entries name = none := by
  rw [find?_eq_none_iff]
  intro hMem
  rcases List.mem_map.mp hMem with ⟨entry, hEntry, hName⟩
  exact String.lt_irrefl name
    (hName ▸ hAbove entry hEntry)

/- What is done to all values shows at each name. -/
theorem find?_map
    {β : Type}
    (change : α → β)
    (entries : Entries α)
    (name : String) :
    find? (entries.map fun entry => (entry.1, change entry.2))
        name =
      (find? entries name).map change := by
  induction entries with
  | nil => rfl
  | cons entry rest ih =>
      rcases entry with ⟨key, value⟩
      by_cases hKey : key = name
      · simp [find?, hKey]
      · simpa [find?, hKey] using ih

/- What is done to all values keeps the names. -/
theorem ascending_map_iff
    {β : Type}
    {change : α → β}
    {entries : Entries α} :
    Ascending
        (entries.map fun entry => (entry.1, change entry.2)) ↔
      Ascending entries := by
  unfold Ascending
  rw [List.pairwise_map]

end Entries

------------------------------------------------------------
-- Fresh Maps
------------------------------------------------------------

namespace Update

mutual
/- The map that an update makes out of nothing. -/
def fresh : Update → CrdtMap
  | ⟨registers, counters, adds, _, flags, maps⟩ =>
      { registers
        counters
        sets :=
          adds.map fun entry =>
            (entry.1, Members.insertAll [] entry.2)
        flags
        maps := freshAll maps }

/- The maps that the updates of a section make. -/
def freshAll :
    List (String × Update) → List (String × CrdtMap)
  | [] => []
  | (name, update) :: rest =>
      (name, update.fresh) :: freshAll rest
end

/- The maps of a section are made one by one. -/
theorem freshAll_eq_map
    (maps : List (String × Update)) :
    freshAll maps =
      maps.map fun entry => (entry.1, entry.2.fresh) := by
  induction maps with
  | nil => rfl
  | cons entry rest ih =>
      rw [freshAll, ih]
      rfl

/- Registers and flags put into nothing stay as they are. -/
theorem overwrite_eq_append
    {α : Type}
    {before new : Entries α}
    (hAsc : Entries.Ascending (before ++ new)) :
    overwrite before new = before ++ new := by
  unfold overwrite
  induction new generalizing before with
  | nil => simp
  | cons entry rest ih =>
      rcases entry with ⟨name, value⟩
      have hNext :
          Entries.Ascending
            ((before ++ [(name, value)]) ++ rest) := by
        simpa using hAsc
      rw [List.foldl_cons]
      simp only [Entries.insert_eq_append hAsc.lt_of_append]
      rw [ih hNext]
      simp

/- Amounts added to nothing stay as they are. -/
theorem addAmounts_eq_append
    {before amounts : Entries (Integer .i64)}
    (hAsc : Entries.Ascending (before ++ amounts)) :
    addAmounts before amounts = .ok (before ++ amounts) := by
  unfold addAmounts
  induction amounts generalizing before with
  | nil => simp [pure, Except.pure]
  | cons entry rest ih =>
      rcases entry with ⟨name, amount⟩
      have hNone :
          Entries.find? before name = none :=
        Entries.find?_eq_none_of_lt hAsc.lt_of_append
      have hNext :
          Entries.Ascending
            ((before ++ [(name, amount)]) ++ rest) := by
        simpa using hAsc
      rw [List.foldlM_cons]
      simp only [hNone, Option.getD_none, Integer.zero_add?,
        Entries.insert_eq_append hAsc.lt_of_append]
      change List.foldlM _ (before ++ [(name, amount)]) rest =
        _
      rw [ih hNext]
      simp

/- There is nothing to be removed from nothing. -/
theorem removeFromSets_nil
    (removes : Entries (List Bytes)) :
    removeFromSets [] removes = [] := by
  unfold removeFromSets
  induction removes with
  | nil => rfl
  | cons entry rest ih => exact ih

/- Members added to nothing make up their sets. -/
theorem addToSets_eq_append
    {before : Entries Members}
    {adds : Entries (List Bytes)}
    (hAsc :
      Entries.Ascending
        (before ++
          adds.map fun entry =>
            (entry.1, Members.insertAll [] entry.2))) :
    addToSets before adds =
      before ++
        adds.map fun entry =>
          (entry.1, Members.insertAll [] entry.2) := by
  unfold addToSets
  induction adds generalizing before with
  | nil => simp
  | cons entry rest ih =>
      rcases entry with ⟨name, added⟩
      rw [List.map_cons] at hAsc
      have hNone :
          Entries.find? before name = none :=
        Entries.find?_eq_none_of_lt hAsc.lt_of_append
      have hNext :
          Entries.Ascending
            ((before ++
                [(name, Members.insertAll [] added)]) ++
              rest.map fun entry =>
                (entry.1, Members.insertAll [] entry.2)) := by
        simpa using hAsc
      rw [List.foldl_cons]
      simp only [hNone, Option.getD_none,
        Entries.insert_eq_append hAsc.lt_of_append]
      rw [ih hNext]
      simp

mutual
/- An update of nothing succeeds, and makes a fresh map. -/
theorem apply_empty :
    (update : Update) → update.WellFormed →
      update.apply .empty = .ok update.fresh
  | ⟨registers, counters, adds, removes, flags, maps⟩,
    hWell => by
      rcases hWell
        with ⟨hRegisters, hCounters, hAdds, _, hFlags, hMaps,
          hAll⟩
      have hSummed : addAmounts [] counters = .ok counters :=
        addAmounts_eq_append hCounters
      have hMerged := applyAll_eq_append maps hAll []
        (by
          rw [freshAll_eq_map]
          exact Entries.ascending_map_iff.mpr hMaps)
      have hSets :
          addToSets [] adds =
            adds.map fun entry =>
              (entry.1, Members.insertAll [] entry.2) :=
        addToSets_eq_append
          (Entries.ascending_map_iff.mpr hAdds)
      have hRegisters' : overwrite [] registers = registers :=
        overwrite_eq_append hRegisters
      have hFlags' : overwrite [] flags = flags :=
        overwrite_eq_append hFlags
      rw [apply]
      simp only [CrdtMap.empty, hSummed, hMerged,
        removeFromSets_nil, hSets, hRegisters', hFlags']
      rfl

/- Updates of nothing succeed, and make fresh maps. -/
theorem applyAll_eq_append :
    (maps : List (String × Update)) → AllWellFormed maps →
      (before : List (String × CrdtMap)) →
      Entries.Ascending (before ++ freshAll maps) →
      applyAll maps before = .ok (before ++ freshAll maps)
  | [], _, before, _ => by
      simp [applyAll, freshAll]
  | (name, update) :: rest, hAll, before, hAsc => by
      rw [freshAll] at hAsc
      have hNone :
          Entries.find? before name = none :=
        Entries.find?_eq_none_of_lt hAsc.lt_of_append
      have hNext :
          Entries.Ascending
            ((before ++ [(name, update.fresh)]) ++
              freshAll rest) := by
        simpa using hAsc
      rw [applyAll]
      simp only [hNone, Option.getD_none,
        apply_empty update hAll.1]
      change applyAll rest
        (Entries.insert before name update.fresh) = _
      rw [Entries.insert_eq_append hAsc.lt_of_append,
        applyAll_eq_append rest hAll.2 _ hNext, freshAll]
      simp
end

end Update

end CrdtDoc
