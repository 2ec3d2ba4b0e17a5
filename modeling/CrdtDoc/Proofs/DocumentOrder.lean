import CrdtDoc.Proofs.DocumentView
import CrdtDoc.Proofs.MemberOrder

/-
  This file shows that updates keep documents in order, and
  that ordered documents are the same if they hold the same
  entries and maps at every path.  So an update makes one
  ordered document of another if and only if it makes all
  of its entries.

  Key definitions include:
    * `CrdtMap.Alike`

  Main declarations:
    * `Update.wellFormed_of_apply`
    * `CrdtMap.eq_of_alike`
    * `Update.apply_eq_ok_iff`
    * `Update.apply_eq_ok_iff_makes`
-/

namespace CrdtDoc

------------------------------------------------------------
-- Order
------------------------------------------------------------

namespace CrdtMap

variable {map : CrdtMap}

/- All maps of a section are well-formed one by one. -/
theorem allWellFormed_iff
    {maps : List (String × CrdtMap)} :
    AllWellFormed maps ↔
      ∀ entry ∈ maps, entry.2.WellFormed := by
  induction maps with
  | nil =>
      constructor
      · intro _ entry hEntry
        cases hEntry
      · intro _
        trivial
  | cons entry rest ih =>
      rw [AllWellFormed, ih, List.forall_mem_cons]

/- The sections ascend, and all sets and maps are ordered. -/
theorem wellFormed_iff :
    map.WellFormed ↔
      Entries.Ascending map.registers ∧
      Entries.Ascending map.counters ∧
      Entries.Ascending map.sets ∧
      (∀ entry ∈ map.sets, Members.Ascending entry.2) ∧
      Entries.Ascending map.flags ∧
      Entries.Ascending map.maps ∧
      ∀ entry ∈ map.maps, entry.2.WellFormed := by
  rcases map with ⟨registers, counters, sets, flags, maps⟩
  rw [WellFormed, allWellFormed_iff]

/- The map without entries is well-formed. -/
theorem wellFormed_empty :
    empty.WellFormed := by
  rw [wellFormed_iff]
  refine ⟨.nil, .nil, .nil, ?_, .nil, .nil, ?_⟩ <;>
    · intro entry hEntry
      cases hEntry

end CrdtMap

/- Members that are left are in the order that they were. -/
theorem Members.Ascending.remove
    {members : Members}
    (hAsc : members.Ascending)
    (removed : List Bytes) :
    (members.remove removed).Ascending :=
  List.Pairwise.filter _ hAsc

namespace Update

/- Sections that ascend, of sets whose members do. -/
def OrderedSets
    (sets : Entries Members) : Prop :=
  Entries.Ascending sets ∧
  ∀ entry ∈ sets, Members.Ascending entry.2

/- A set whose members ascend may be put among others. -/
theorem OrderedSets.insert
    {sets : Entries Members}
    (hSets : OrderedSets sets)
    (name : String)
    {members : Members}
    (hMembers : members.Ascending) :
    OrderedSets (Entries.insert sets name members) := by
  refine ⟨Entries.ascending_insert hSets.1 name members, ?_⟩
  intro entry hEntry
  rcases Entries.mem_insert hEntry with hEq | hOld
  · exact hEq ▸ hMembers
  · exact hSets.2 entry hOld

/- The members of each set ascend, also if there is no set. -/
theorem OrderedSets.getD
    {sets : Entries Members}
    (hSets : OrderedSets sets)
    (name : String) :
    Members.Ascending ((Entries.find? sets name).getD []) := by
  cases hFind : Entries.find? sets name with
  | none => exact .nil
  | some members =>
      exact hSets.2 _ (Entries.mem_of_find? hFind)

/- Removals and additions keep sets in order. -/
theorem OrderedSets.change
    {sets : Entries Members}
    (hSets : OrderedSets sets)
    (removes adds : Entries (List Bytes)) :
    OrderedSets (addToSets (removeFromSets sets removes) adds) := by
  have hKept : OrderedSets (removeFromSets sets removes) := by
    refine List.foldlRecOn removes _ hSets ?_
    rintro sets hSets ⟨name, removed⟩ _
    simp only
    split
    · exact hSets
    · rename_i members hFind
      have hMembers :=
        hSets.2 _ (Entries.mem_of_find? hFind)
      exact hSets.insert name (hMembers.remove removed)
  refine List.foldlRecOn adds _ hKept ?_
  rintro sets hSets ⟨name, added⟩ _
  exact hSets.insert name
    (Members.ascending_insertAll (hSets.getD name) added)

/- Registers and flags that are written keep their order. -/
theorem ascending_overwrite
    {α : Type}
    {entries : Entries α}
    (hAsc : Entries.Ascending entries)
    (new : Entries α) :
    Entries.Ascending (overwrite entries new) :=
  List.foldlRecOn new _ hAsc fun _ hAsc entry _ =>
    Entries.ascending_insert hAsc entry.1 entry.2

/- Amounts that are added keep the order of counters. -/
theorem ascending_addAmounts
    {counters amounts after : Entries (Integer .i64)}
    (hAsc : Entries.Ascending counters)
    (hAdd : addAmounts counters amounts = .ok after) :
    Entries.Ascending after := by
  refine foldlM_induction Entries.Ascending ?_ hAsc hAdd
  rintro counters ⟨name, amount⟩ _ next hAsc hNext
  simp only at hNext
  split at hNext
  · cases hNext
  · cases hNext
    exact Entries.ascending_insert hAsc name _

mutual
/- A map that is well-formed is so after an update. -/
theorem wellFormed_of_apply :
    (update : Update) → {map after : CrdtMap} →
      map.WellFormed →
      update.apply map = .ok after →
      after.WellFormed
  | ⟨registers, counters, adds, removes, flags, maps⟩, map,
    after, hWell, hApply => by
      rcases CrdtMap.wellFormed_iff.mp hWell with
        ⟨hRegisters, hCounters, hSets, hMembers, hFlags,
          hMaps, hAll⟩
      rw [apply, bind_eq_ok_iff] at hApply
      rcases hApply with ⟨summed, hSummed, hRest⟩
      rcases bind_eq_ok_iff.mp hRest
        with ⟨merged, hMerged, hDone⟩
      cases hDone
      have hSets' : OrderedSets map.sets := ⟨hSets, hMembers⟩
      have hChanged := hSets'.change removes adds
      have hMaps' :=
        wellFormed_of_applyAll maps ⟨hMaps, hAll⟩ hMerged
      exact CrdtMap.wellFormed_iff.mpr
        ⟨ascending_overwrite hRegisters registers,
          ascending_addAmounts hCounters hSummed,
          hChanged.1, hChanged.2,
          ascending_overwrite hFlags flags, hMaps'⟩

/- Maps that are well-formed are so after their updates. -/
theorem wellFormed_of_applyAll :
    (updates : List (String × Update)) →
      {maps after : List (String × CrdtMap)} →
      Entries.Ascending maps ∧
        (∀ entry ∈ maps, entry.2.WellFormed) →
      applyAll updates maps = .ok after →
      Entries.Ascending after ∧
        ∀ entry ∈ after, entry.2.WellFormed
  | [], _, _, hMaps, hApply => by
      cases hApply
      exact hMaps
  | (name, update) :: rest, maps, after, hMaps, hApply => by
      rw [applyAll, bind_eq_ok_iff] at hApply
      rcases hApply with ⟨made, hMade, hRest⟩
      have hBefore :
          ((Entries.find? maps name).getD
            .empty).WellFormed := by
        cases hFind : Entries.find? maps name with
        | none => exact CrdtMap.wellFormed_empty
        | some old =>
            exact hMaps.2 _ (Entries.mem_of_find? hFind)
      have hNew := wellFormed_of_apply update hBefore hMade
      refine wellFormed_of_applyAll rest ⟨?_, ?_⟩ hRest
      · exact Entries.ascending_insert hMaps.1 name made
      · intro entry hEntry
        rcases Entries.mem_insert hEntry with hEq | hOld
        · exact hEq ▸ hNew
        · exact hMaps.2 entry hOld
end

end Update

------------------------------------------------------------
-- Equality
------------------------------------------------------------

namespace CrdtMap

/- Two documents hold the same entries and the same maps. -/
structure Alike
    (left right : CrdtMap) : Prop where
  leaf :
    ∀ path name, left.leaf path name = right.leaf path name
  maps :
    ∀ path,
      (left.at? path).isSome ↔ (right.at? path).isSome

namespace Alike

variable {left right : CrdtMap}

/- Both documents are like each other. -/
theorem symm
    (hAlike : left.Alike right) :
    right.Alike left where
  leaf path name := (hAlike.leaf path name).symm
  maps path := (hAlike.maps path).symm

/- A map of the one is like a map of the other. -/
theorem exists_map?
    (hAlike : left.Alike right)
    {name : String}
    {inner : CrdtMap}
    (hInner : left.map? name = some inner) :
    ∃ other,
      right.map? name = some other ∧ inner.Alike other := by
  have hMaps := hAlike.maps [name]
  rw [at?, at?, hInner] at hMaps
  cases hOther : right.map? name with
  | none =>
      rw [hOther] at hMaps
      cases hMaps.mp rfl
  | some other =>
      refine ⟨other, rfl, ?_, ?_⟩
      · intro path label
        have hLeaf := hAlike.leaf (name :: path) label
        rwa [leaf_cons, leaf_cons, child, child, hInner,
          hOther] at hLeaf
      · intro path
        have hPath := hAlike.maps (name :: path)
        rwa [at?, at?, hInner, hOther] at hPath

end Alike

/- The maps within a well-formed map are well-formed. -/
theorem WellFormed.child
    {map : CrdtMap}
    (hWell : map.WellFormed)
    (name : String) :
    (map.child name).WellFormed := by
  unfold CrdtMap.child map?
  cases hMap : Entries.find? map.maps name with
  | none => exact wellFormed_empty
  | some inner =>
      exact (wellFormed_iff.mp hWell).2.2.2.2.2.2 _
        (Entries.mem_of_find? hMap)

/- Well-formed documents with the same entries are the same. -/
theorem WellFormed.eq_of_entry
    {left right : CrdtMap}
    (hLeft : left.WellFormed)
    (hRight : right.WellFormed)
    (hEntry : ∀ name, left.entry name = right.entry name) :
    left = right := by
  rcases wellFormed_iff.mp hLeft with
    ⟨hRegisters, hCounters, hSets, _, hFlags, hMaps, _⟩
  rcases wellFormed_iff.mp hRight with
    ⟨hRegisters', hCounters', hSets', _, hFlags', hMaps', _⟩
  rcases left with ⟨_, _, _, _, _⟩
  rcases right with ⟨_, _, _, _, _⟩
  rw [mk.injEq]
  exact
    ⟨Entries.ext hRegisters hRegisters' fun name =>
        congrArg Entry.register (hEntry name),
      Entries.ext hCounters hCounters' fun name =>
        congrArg Entry.counter (hEntry name),
      Entries.ext hSets hSets' fun name =>
        congrArg Entry.set (hEntry name),
      Entries.ext hFlags hFlags' fun name =>
        congrArg Entry.flag (hEntry name),
      Entries.ext hMaps hMaps' fun name =>
        congrArg Entry.map (hEntry name)⟩

mutual
/- Well-formed documents that are alike are the same. -/
theorem eq_of_alike :
    (left : CrdtMap) → {right : CrdtMap} →
      left.WellFormed → right.WellFormed →
      left.Alike right → left = right
  | ⟨registers, counters, sets, flags, maps⟩, right, hLeft,
    hRight, hAlike => by
      have hWell := hLeft
      rcases hLeft with ⟨_, _, _, _, _, hMaps, hAll⟩
      have hEach :
          ∀ entry ∈ maps, entry.2 = right.child entry.1 := by
        refine eq_of_alikeAll maps hAll right.child
          (fun entry _ => hRight.child entry.1) ?_
        intro entry hEntry
        rcases hAlike.exists_map? (hMaps.find?_of_mem hEntry)
          with ⟨other, hOther, hInner⟩
        rwa [child, hOther]
      have hMerged :
          ∀ name,
            Entries.find? maps name = right.map? name := by
        intro name
        cases hInner : Entries.find? maps name with
        | none =>
            cases hOther : right.map? name with
            | none => rfl
            | some other =>
                rcases hAlike.symm.exists_map? hOther
                  with ⟨inner, hSome, _⟩
                cases hInner.symm.trans hSome
        | some inner =>
            rcases hAlike.exists_map? hInner
              with ⟨other, hOther, _⟩
            have hEq :=
              hEach (name, inner) (Entries.mem_of_find? hInner)
            rw [child, hOther] at hEq
            rw [hOther, show inner = other from hEq]
      refine WellFormed.eq_of_entry hWell hRight ?_
      intro name
      have hLeaf := hAlike.leaf [] name
      rw [entry, entry, Entry.mk.injEq]
      exact
        ⟨congrArg Entry.register hLeaf,
          congrArg Entry.counter hLeaf,
          congrArg Entry.set hLeaf,
          congrArg Entry.flag hLeaf, hMerged name⟩

/- Maps that are like those of their names are the same. -/
theorem eq_of_alikeAll :
    (maps : List (String × CrdtMap)) → AllWellFormed maps →
      (others : String → CrdtMap) →
      (∀ entry ∈ maps, (others entry.1).WellFormed) →
      (∀ entry ∈ maps, entry.2.Alike (others entry.1)) →
      ∀ entry ∈ maps, entry.2 = others entry.1
  | [], _, _, _, _, entry, hEntry => by
      cases hEntry
  | (name, map) :: rest, hAll, others, hOthers, hAlike, entry,
    hEntry => by
      rcases List.mem_cons.mp hEntry with hEq | hRest
      · rw [hEq]
        exact eq_of_alike map hAll.1
          (hOthers (name, map) List.mem_cons_self)
          (hAlike (name, map) List.mem_cons_self)
      · exact eq_of_alikeAll rest hAll.2 others
          (fun other hOther =>
            hOthers other (List.mem_cons_of_mem _ hOther))
          (fun other hOther =>
            hAlike other (List.mem_cons_of_mem _ hOther))
          entry hRest
end

end CrdtMap

namespace Update

variable {update : Update} {map after : CrdtMap}

/- The sets of an ordered document are in order. -/
theorem ascending_leaf
    (hMap : map.WellFormed)
    (path : List String)
    (name : String) :
    Members.Ascending ((map.leaf path name).set.getD []) := by
  induction path generalizing map with
  | nil =>
      have hSets := CrdtMap.wellFormed_iff.mp hMap
      exact OrderedSets.getD ⟨hSets.2.2.1, hSets.2.2.2.1⟩ name
  | cons first rest ih =>
      rw [CrdtMap.leaf_cons]
      exact ih (hMap.child first)

/-
  An ordered update makes one ordered document of another if
  and only if it makes its entries at every path, and its
  maps are those before and those written.
-/
theorem apply_eq_ok_iff
    (hWell : update.WellFormed)
    (hMap : map.WellFormed)
    (hAfter : after.WellFormed) :
    update.apply map = .ok after ↔
      (∀ path name,
        (update.leaf path name).Makes (map.leaf path name)
          (after.leaf path name)) ∧
      (∀ path,
        (after.at? path).isSome ↔
          (map.at? path).isSome ∨
            (update.at? path).isSome) := by
  constructor
  · intro hApply
    exact ⟨makes_leaf_of_apply hWell hApply,
      isSome_at?_of_apply hWell hApply⟩
  · rintro ⟨hLeaf, hMaps⟩
    have hFits : update.Fits map := by
      intro path name amount hAmount
      have hCounter := (hLeaf path name).counter
      rw [hAmount] at hCounter
      rcases hCounter with ⟨sum, hSum, _⟩
      exact ⟨sum, hSum⟩
    rcases exists_apply update hWell hFits with ⟨made, hMade⟩
    have hAlike : made.Alike after := by
      constructor
      · intro path name
        exact
          (makes_leaf_of_apply hWell hMade path name).unique
            (hLeaf path name)
      · intro path
        rw [isSome_at?_of_apply hWell hMade path, hMaps path]
    have hOrdered := wellFormed_of_apply update hMap hMade
    rw [hMade, made.eq_of_alike hOrdered hAfter hAlike]

/- An update that makes the entries of all names fits. -/
theorem fits_of_makes
    (hWell : update.WellFormed)
    (hMakes :
      ∀ name,
        (update.entry name).Makes (map.entry name)
          (after.entry name)) :
    update.Fits map := by
  intro path name amount hAmount
  cases path with
  | nil =>
      have hCounter := (hMakes name).counter
      rw [show (update.entry name).counter = some amount
        from hAmount] at hCounter
      rcases hCounter with ⟨sum, hSum, _⟩
      exact ⟨sum, hSum⟩
  | cons first rest =>
      have hMap := (hMakes first).map
      rw [leaf_cons] at hAmount
      rw [CrdtMap.leaf_cons]
      cases hInner : (update.entry first).map with
      | none =>
          have hChild : update.child first = .empty :=
            congrArg (·.getD .empty) hInner
          rw [hChild, leaf_empty] at hAmount
          cases hAmount
      | some inner =>
          have hChild : update.child first = inner :=
            congrArg (·.getD .empty) hInner
          rw [hInner] at hMap
          rcases hMap with ⟨made, hMade, _⟩
          have hFits :=
            (exists_apply_iff
              (hChild ▸ hWell.child first)).mp ⟨made, hMade⟩
          exact hFits rest name amount (hChild ▸ hAmount)

/-
  An ordered update makes one ordered document of another if
  and only if it makes the entry of each name.
-/
theorem apply_eq_ok_iff_makes
    (hWell : update.WellFormed)
    (hMap : map.WellFormed)
    (hAfter : after.WellFormed) :
    update.apply map = .ok after ↔
      ∀ name,
        (update.entry name).Makes (map.entry name)
          (after.entry name) := by
  refine ⟨fun hApply => makes_of_apply hWell hApply, ?_⟩
  intro hMakes
  rcases exists_apply update hWell
    (fits_of_makes hWell hMakes) with ⟨made, hMade⟩
  have hEntry :
      ∀ name, made.entry name = after.entry name := by
    intro name
    exact (makes_of_apply hWell hMade name).unique
      (hMakes name)
  have hOrdered := wellFormed_of_apply update hMap hMade
  rw [hMade, hOrdered.eq_of_entry hAfter hEntry]

end Update

end CrdtDoc
