import CrdtDoc.Proofs.UpdateAtPath

/-
  This file describes what an update makes of a whole
  document: at each path, what is held under a name depends
  on nothing but what was held there and what is written
  there, and the maps that were there or are written to are
  there afterwards.  An update can be made if and only if
  its amounts fit the counters at their paths.

  Key definitions include:
    * `Update.leaf`
    * `Update.Fits`

  Main declarations:
    * `Update.makes_leaf_of_apply`
    * `Update.isSome_at?_of_apply`
    * `Update.Entry.Makes.unique`
    * `Update.exists_apply_iff`
-/

namespace CrdtDoc

------------------------------------------------------------
-- Sections
------------------------------------------------------------

namespace Entries

variable {α β ε : Type}

/- In an ascending section, each entry is found. -/
theorem Ascending.find?_of_mem
    {entries : Entries α}
    (hAsc : Ascending entries)
    {entry : String × α}
    (hEntry : entry ∈ entries) :
    find? entries entry.1 = some entry.2 := by
  induction entries with
  | nil => cases hEntry
  | cons first rest ih =>
      rcases List.mem_cons.mp hEntry with hEq | hRest
      · rw [hEq]
        exact if_pos rfl
      · have hLess : first.1 < entry.1 :=
          hAsc.lt_of_mem (List.mem_map_of_mem hRest)
        have hNe : ¬first.1 = entry.1 := by
          intro hEq
          exact String.lt_irrefl first.1 (hEq ▸ hLess)
        rw [find?, if_neg hNe]
        exact ih (List.pairwise_cons.mp hAsc).2 hRest

/-
  Changes of single names can be made one after the other
  if each can be made on its own.
-/
theorem exists_foldlM
    (step : Entries α → String × β → Except ε (Entries α))
    (change : β → Option α → Except ε α)
    (hStep :
      ∀ entries name value made,
        change value (find? entries name) = .ok made →
          step entries (name, value) =
            .ok (insert entries name made))
    {new : Entries β}
    (hAsc : Ascending new)
    {entries : Entries α}
    (hEach :
      ∀ entry ∈ new, ∃ made,
        change entry.2 (find? entries entry.1) = .ok made) :
    ∃ after, new.foldlM step entries = .ok after := by
  induction new generalizing entries with
  | nil => exact ⟨entries, rfl⟩
  | cons entry rest ih =>
      rcases entry with ⟨name, value⟩
      have hTail := (List.pairwise_cons.mp hAsc).2
      rcases hEach (name, value) List.mem_cons_self
        with ⟨made, hMade⟩
      have hRest :
          ∀ other ∈ rest, ∃ made',
            change other.2
                (find? (insert entries name made) other.1) =
              .ok made' := by
        intro other hOther
        have hLess : name < other.1 :=
          hAsc.lt_of_mem (List.mem_map_of_mem hOther)
        have hNe : ¬name = other.1 := by
          intro hEq
          exact String.lt_irrefl name (hEq ▸ hLess)
        rw [find?_insert, if_neg hNe]
        exact hEach other (List.mem_cons_of_mem _ hOther)
      rcases ih hTail hRest with ⟨after, hAfter⟩
      refine ⟨after, ?_⟩
      rw [List.foldlM_cons, hStep _ _ _ _ hMade]
      exact hAfter

end Entries

------------------------------------------------------------
-- Updates at Paths
------------------------------------------------------------

namespace Update

/- What is written at a path, nothing if it is missing. -/
def reach
    (update : Update)
    (path : List String) : Update :=
  (update.at? path).getD .empty

/- What is written under a name, apart from maps. -/
def leaf
    (update : Update)
    (path : List String)
    (name : String) : Entry :=
  { (update.reach path).entry name with map := .none }

/- Nothing is written at any path of nothing. -/
theorem reach_empty
    (path : List String) :
    empty.reach path = empty := by
  cases path <;> rfl

/- A path leads on from what its first name leads to. -/
theorem reach_cons
    (update : Update)
    (name : String)
    (rest : List String) :
    update.reach (name :: rest) =
      (update.child name).reach rest := by
  unfold child
  rw [reach, at?]
  cases update.map? name with
  | none => exact (reach_empty rest).symm
  | some inner => rfl

/- Nothing is written under any name of nothing. -/
theorem leaf_empty
    (path : List String)
    (name : String) :
    empty.leaf path name = .none := by
  rw [leaf, reach_empty]
  rfl

/- What is written within is written in the first map. -/
theorem leaf_cons
    (update : Update)
    (first : String)
    (rest : List String)
    (name : String) :
    update.leaf (first :: rest) name =
      (update.child first).leaf rest name := by
  rw [leaf, reach_cons, leaf]

------------------------------------------------------------
-- Effects
------------------------------------------------------------

variable {update : Update} {map after : CrdtMap}

/- An update that writes nothing changes nothing. -/
theorem empty_apply
    (map : CrdtMap) :
    empty.apply map = .ok map := by
  rcases map with ⟨registers, counters, sets, flags, maps⟩
  rw [empty, apply, applyAll]
  rfl

/- The map under a name is made by what is written there. -/
theorem apply_child
    (hWell : update.WellFormed)
    (hApply : update.apply map = .ok after)
    (name : String) :
    (update.child name).apply (map.child name) =
      .ok (after.child name) := by
  have hMap :
      (update.map? name).elim (after.map? name = map.map? name)
        fun inner =>
          ∃ made,
            inner.apply (map.child name) = .ok made ∧
            after.map? name = some made :=
    (makes_of_apply hWell hApply name).map
  unfold child
  cases hInner : update.map? name with
  | none =>
      rw [hInner] at hMap
      rw [CrdtMap.child, CrdtMap.child,
        show after.map? name = _ from hMap]
      exact empty_apply _
  | some inner =>
      rw [hInner] at hMap
      rcases hMap with ⟨made, hMade, hAfter⟩
      rw [CrdtMap.child, CrdtMap.child, hAfter]
      exact hMade

/- At each path, an update makes new entries from the old. -/
theorem makes_leaf_of_apply
    (hWell : update.WellFormed)
    (hApply : update.apply map = .ok after)
    (path : List String)
    (name : String) :
    (update.leaf path name).Makes (map.leaf path name)
      (after.leaf path name) := by
  induction path generalizing update map after with
  | nil =>
      have hMakes := makes_of_apply hWell hApply name
      exact
        ⟨hMakes.register, hMakes.counter, hMakes.set,
          hMakes.flag, rfl⟩
  | cons first rest ih =>
      rw [leaf_cons, CrdtMap.leaf_cons, CrdtMap.leaf_cons]
      exact ih (hWell.child first)
        (apply_child hWell hApply first)

/- A map without entries has no map but itself. -/
theorem eq_nil_of_isSome_at?_empty
    {path : List String}
    (hPath : (CrdtMap.empty.at? path).isSome) :
    path = [] := by
  cases path with
  | nil => rfl
  | cons name rest => cases hPath

/- The maps of a document are those before and those written. -/
theorem isSome_at?_of_apply
    (hWell : update.WellFormed)
    (hApply : update.apply map = .ok after)
    (path : List String) :
    (after.at? path).isSome ↔
      (map.at? path).isSome ∨ (update.at? path).isSome := by
  induction path generalizing update map after with
  | nil => simp [CrdtMap.at?]
  | cons first rest ih =>
      have hMap :
          (update.map? first).elim
            (after.map? first = map.map? first)
            fun inner =>
              ∃ made,
                inner.apply (map.child first) = .ok made ∧
                after.map? first = some made :=
        (makes_of_apply hWell hApply first).map
      have hChild := apply_child hWell hApply first
      have hRest := ih (hWell.child first) hChild
      rw [CrdtMap.at?, CrdtMap.at?, at?]
      rw [child, CrdtMap.child, CrdtMap.child] at hRest
      cases hInner : update.map? first with
      | none =>
          rw [hInner] at hMap
          rw [show after.map? first = _ from hMap]
          simp
      | some inner =>
          rw [hInner] at hMap hRest
          rcases hMap with ⟨made, _, hAfter⟩
          rw [hAfter] at hRest ⊢
          refine hRest.trans ?_
          -- A missing map counts as empty, which is there at
          -- the path itself; but so is what is written to it.
          cases map.map? first with
          | some old => rfl
          | none =>
              constructor
              · rintro (hEmpty | hInner)
                · cases eq_nil_of_isSome_at?_empty hEmpty
                  exact Or.inr rfl
                · exact Or.inr hInner
              · rintro (hNone | hInner)
                · cases hNone
                · exact Or.inr hInner

/- What adds no amount leaves a counter as it was. -/
theorem Entry.Makes.counter_eq
    {entry : Entry}
    {before after : CrdtMap.Entry}
    (hMakes : entry.Makes before after)
    (hCounter : entry.counter = .none) :
    after.counter = before.counter := by
  have hMade := hMakes.counter
  rwa [hCounter] at hMade

/- What adds and removes no members leaves a set as it was. -/
theorem Entry.Makes.set_eq
    {entry : Entry}
    {before after : CrdtMap.Entry}
    (hMakes : entry.Makes before after)
    (hAdds : entry.adds = .none)
    (hRemoves : entry.removes = .none) :
    after.set = before.set := by
  refine hMakes.set.trans ?_
  rw [newSet, hAdds, hRemoves]
  simp [Members.remove_nil]

/- What is written makes no more than one entry of another. -/
theorem Entry.Makes.unique
    {entry : Entry}
    {before made other : CrdtMap.Entry}
    (hMade : entry.Makes before made)
    (hOther : entry.Makes before other) :
    made = other := by
  have hCounter : made.counter = other.counter := by
    have hFirst := hMade.counter
    have hSecond := hOther.counter
    cases hAmount : entry.counter with
    | none =>
        rw [hAmount] at hFirst hSecond
        exact hFirst.trans hSecond.symm
    | some amount =>
        rw [hAmount] at hFirst hSecond
        rcases hFirst with ⟨sum, hSum, hMade⟩
        rcases hSecond with ⟨sum', hSum', hOther⟩
        cases hSum.symm.trans hSum'
        exact hMade.trans hOther.symm
  have hMap : made.map = other.map := by
    have hFirst := hMade.map
    have hSecond := hOther.map
    cases hInner : entry.map with
    | none =>
        rw [hInner] at hFirst hSecond
        exact hFirst.trans hSecond.symm
    | some inner =>
        rw [hInner] at hFirst hSecond
        rcases hFirst with ⟨new, hNew, hMade⟩
        rcases hSecond with ⟨new', hNew', hOther⟩
        cases hNew.symm.trans hNew'
        exact hMade.trans hOther.symm
  have hRegister := hMade.register.trans hOther.register.symm
  have hSet := hMade.set.trans hOther.set.symm
  have hFlag := hMade.flag.trans hOther.flag.symm
  rcases made with ⟨_, _, _, _, _⟩
  rcases other with ⟨_, _, _, _, _⟩
  rw [CrdtMap.Entry.mk.injEq]
  exact ⟨hRegister, hCounter, hSet, hFlag, hMap⟩

------------------------------------------------------------
-- Success
------------------------------------------------------------

/- All amounts of an update fit the counters of a document. -/
def Fits
    (update : Update)
    (map : CrdtMap) : Prop :=
  ∀ path name amount,
    (update.leaf path name).counter = some amount →
    ∃ sum,
      sumOf amount (map.leaf path name).counter = .ok sum

/- Amounts that fit their counters can be added. -/
theorem exists_addAmounts
    {amounts counters : Entries (Integer .i64)}
    (hAsc : Entries.Ascending amounts)
    (hFits :
      ∀ entry ∈ amounts, ∃ sum,
        sumOf entry.2 (Entries.find? counters entry.1) =
          .ok sum) :
    ∃ after, addAmounts counters amounts = .ok after := by
  refine Entries.exists_foldlM _ sumOf ?_ hAsc hFits
  intro counters name amount sum hSum
  rw [sumOf_eq_ok_iff] at hSum
  simp only [hSum]

/- Updates that can be made to their maps are made to all. -/
theorem exists_applyAll
    {updates : Entries Update}
    {maps : Entries CrdtMap}
    (hAsc : Entries.Ascending updates)
    (hEach :
      ∀ entry ∈ updates, ∃ made,
        entry.2.apply
            ((Entries.find? maps entry.1).getD .empty) =
          .ok made) :
    ∃ after, applyAll updates maps = .ok after := by
  rw [applyAll_eq_foldlM]
  refine
    Entries.exists_foldlM _
      (fun update before => update.apply (before.getD .empty))
      ?_ hAsc hEach
  intro maps name update made hMade
  simp only [hMade]
  rfl

/- What fits a document fits the maps within it. -/
theorem Fits.child
    (hFits : update.Fits map)
    (name : String) :
    (update.child name).Fits (map.child name) := by
  intro path other amount hAmount
  rw [← leaf_cons] at hAmount
  rw [← CrdtMap.leaf_cons]
  exact hFits (name :: path) other amount hAmount

mutual
/- An update whose amounts fit can be made. -/
theorem exists_apply :
    (update : Update) → update.WellFormed →
      {map : CrdtMap} → update.Fits map →
      ∃ after, update.apply map = .ok after
  | ⟨registers, counters, adds, removes, flags, maps⟩,
    hWell, map, hFits => by
      rcases hWell
        with ⟨_, hCounters, _, _, _, hMaps, hAll⟩
      have hSummed :
          ∃ summed,
            addAmounts map.counters counters = .ok summed := by
        apply exists_addAmounts hCounters
        intro entry hEntry
        exact hFits [] entry.1 entry.2
          (hCounters.find?_of_mem hEntry)
      have hMerged :
          ∃ merged, applyAll maps map.maps = .ok merged := by
        apply exists_applyAll hMaps
        refine exists_applyEach maps hAll map.child ?_
        intro entry hEntry
        have hChild := hFits.child entry.1
        rwa [child, map?, hMaps.find?_of_mem hEntry] at hChild
      rcases hSummed with ⟨summed, hSummed⟩
      rcases hMerged with ⟨merged, hMerged⟩
      rw [apply]
      simp only [hSummed, hMerged]
      exact ⟨_, rfl⟩

/- Updates whose amounts fit their maps can be made. -/
theorem exists_applyEach :
    (updates : List (String × Update)) →
      AllWellFormed updates →
      (maps : String → CrdtMap) →
      (∀ entry ∈ updates, entry.2.Fits (maps entry.1)) →
      ∀ entry ∈ updates,
        ∃ made, entry.2.apply (maps entry.1) = .ok made
  | [], _, _, _, entry, hEntry => by
      cases hEntry
  | (name, update) :: rest, hAll, maps, hFits, entry,
    hEntry => by
      rcases List.mem_cons.mp hEntry with hEq | hRest
      · rw [hEq]
        exact exists_apply update hAll.1
          (hFits (name, update) List.mem_cons_self)
      · exact exists_applyEach rest hAll.2 maps
          (fun other hOther =>
            hFits other (List.mem_cons_of_mem _ hOther))
          entry hRest
end

/- An update can be made if and only if its amounts fit. -/
theorem exists_apply_iff
    (hWell : update.WellFormed) :
    (∃ after, update.apply map = .ok after) ↔
      update.Fits map := by
  constructor
  · rintro ⟨after, hApply⟩ path name amount hAmount
    have hCounter :=
      (makes_leaf_of_apply hWell hApply path name).counter
    rw [hAmount] at hCounter
    rcases hCounter with ⟨sum, hSum, _⟩
    exact ⟨sum, hSum⟩
  · exact exists_apply update hWell

end Update

end CrdtDoc
