import CrdtDoc.Proofs.EntryReading
import CrdtDoc.Proofs.OrderedWriting

/-
  This file describes what an update makes of a map, name by
  name: what the map holds under a name afterwards depends on
  nothing but what it held there and what is written there.

  Key definitions include:
    * `Update.sumOf`
    * `Update.Entry.newSet`
    * `Update.Entry.Makes`

  Main declarations:
    * `Entries.find?_foldl`
    * `Entries.find?_foldlM`
    * `Update.makes_of_apply`
-/

namespace CrdtDoc

------------------------------------------------------------
-- Rows of Changes
------------------------------------------------------------

namespace Entries

variable {α β ε : Type}

/-
  Changes of single names, made for each name of an ascending
  section, show at each name once.
-/
theorem find?_foldl
    (step : Entries α → String × β → Entries α)
    (change : β → Option α → Option α)
    (hStep :
      ∀ entries name value other,
        find? (step entries (name, value)) other =
          if name = other then
            change value (find? entries name)
          else find? entries other)
    {new : Entries β}
    (hAsc : Ascending new)
    (entries : Entries α)
    (name : String) :
    find? (new.foldl step entries) name =
      (find? new name).elim (find? entries name)
        (change · (find? entries name)) := by
  induction new generalizing entries with
  | nil => rfl
  | cons entry rest ih =>
      rcases entry with ⟨first, value⟩
      have hRest := (List.pairwise_cons.mp hAsc).2
      rw [List.foldl_cons, ih hRest, hStep, find?]
      by_cases hName : first = name
      · subst hName
        simp only [hAsc.find?_tail, if_true,
          Option.elim_none, Option.elim_some]
      · simp only [if_neg hName]

/-
  Changes of single names that may fail show in the same way
  if none of them does.
-/
theorem find?_foldlM
    (step : Entries α → String × β → Except ε (Entries α))
    (change : β → Option α → Except ε α)
    (hStep :
      ∀ entries name value after,
        step entries (name, value) = .ok after →
          ∃ made,
            change value (find? entries name) = .ok made ∧
            after = insert entries name made)
    {new : Entries β}
    (hAsc : Ascending new)
    {entries after : Entries α}
    (hFold : new.foldlM step entries = .ok after)
    (name : String) :
    (find? new name).elim
      (find? after name = find? entries name)
      (fun value =>
        ∃ made,
          change value (find? entries name) = .ok made ∧
          find? after name = some made) := by
  induction new generalizing entries with
  | nil =>
      cases hFold
      rfl
  | cons entry rest ih =>
      rcases entry with ⟨first, value⟩
      have hTail := (List.pairwise_cons.mp hAsc).2
      rw [List.foldlM_cons, bind_eq_ok_iff] at hFold
      rcases hFold with ⟨middle, hFirst, hRest⟩
      rcases hStep _ _ _ _ hFirst with ⟨made, hMade, hMiddle⟩
      have hLater := ih hTail hRest
      rw [hMiddle, find?_insert] at hLater
      rw [find?]
      by_cases hName : first = name
      · subst hName
        rw [hAsc.find?_tail, if_pos rfl] at hLater
        rw [if_pos rfl]
        exact ⟨made, hMade, hLater⟩
      · rw [if_neg hName] at hLater ⊢
        exact hLater

end Entries

/- Nothing is changed by removing no members. -/
theorem Members.remove_nil
    (members : Members) :
    members.remove [] = members := by
  simp [remove]

namespace Update

------------------------------------------------------------
-- Single Sections
------------------------------------------------------------

/- What is written over a section shows, before the rest. -/
theorem find?_overwrite
    {α : Type}
    {new : Entries α}
    (hAsc : Entries.Ascending new)
    (entries : Entries α)
    (name : String) :
    Entries.find? (overwrite entries new) name =
      (Entries.find? new name).or
        (Entries.find? entries name) := by
  have hFind :=
    Entries.find?_foldl
      (fun entries entry =>
        Entries.insert entries entry.1 entry.2)
      (fun value _ => some value)
      (fun entries name value other =>
        Entries.find?_insert entries name other value)
      hAsc entries name
  refine hFind.trans ?_
  cases Entries.find? new name <;> rfl

/- A counter after an amount was added to it. -/
def sumOf
    (amount : Integer .i64)
    (before : Option (Integer .i64)) :
    Except Abort (Integer .i64) :=
  match (before.getD .zero).add? amount with
  | none => .error .overflow
  | some sum => .ok sum

/- A counter holds the sum of an amount and what it held. -/
theorem sumOf_eq_ok_iff
    {amount sum : Integer .i64}
    {before : Option (Integer .i64)} :
    sumOf amount before = .ok sum ↔
      (before.getD .zero).add? amount = some sum := by
  unfold sumOf
  split
  · rename_i hNone
    rw [hNone]
    exact iff_of_false nofun nofun
  · rename_i found hFound
    rw [hFound, Except.ok.injEq, Option.some.injEq]

/- The sum has the value of the amount and what was held. -/
theorem sumOf_eq_ok_iff_toInt
    {amount sum : Integer .i64}
    {before : Option (Integer .i64)} :
    sumOf amount before = .ok sum ↔
      sum.toInt =
        (before.getD .zero).toInt + amount.toInt := by
  rw [sumOf_eq_ok_iff, Integer.add?,
    Integer.ofInt?_eq_some_iff]

/- Amounts are added to the counters of their names. -/
theorem find?_addAmounts
    {amounts : Entries (Integer .i64)}
    (hAsc : Entries.Ascending amounts)
    {counters after : Entries (Integer .i64)}
    (hAdd : addAmounts counters amounts = .ok after)
    (name : String) :
    (Entries.find? amounts name).elim
      (Entries.find? after name = Entries.find? counters name)
      (fun amount =>
        ∃ sum,
          sumOf amount (Entries.find? counters name) =
            .ok sum ∧
          Entries.find? after name = some sum) := by
  refine Entries.find?_foldlM _ sumOf ?_ hAsc hAdd name
  intro counters first amount after hStep
  simp only at hStep
  split at hStep
  · cases hStep
  · rename_i sum hSum
    cases hStep
    exact ⟨sum, by rw [sumOf, hSum], rfl⟩

/- Members are removed from the sets that there are. -/
theorem find?_removeFromSets
    {removes : Entries (List Bytes)}
    (hAsc : Entries.Ascending removes)
    (sets : Entries Members)
    (name : String) :
    Entries.find? (removeFromSets sets removes) name =
      (Entries.find? removes name).elim
        (Entries.find? sets name)
        (fun removed =>
          (Entries.find? sets name).map
            (Members.remove · removed)) := by
  refine
    Entries.find?_foldl _
      (fun removed before =>
        before.map (Members.remove · removed))
      ?_ hAsc sets name
  intro sets first removed other
  cases hFind : Entries.find? sets first with
  | none =>
      simp only [hFind]
      split
      · rename_i hName
        rw [← hName, hFind]
        rfl
      · rfl
  | some members =>
      simp only [hFind]
      exact Entries.find?_insert sets first other _

/- Members are added to the sets of their names. -/
theorem find?_addToSets
    {adds : Entries (List Bytes)}
    (hAsc : Entries.Ascending adds)
    (sets : Entries Members)
    (name : String) :
    Entries.find? (addToSets sets adds) name =
      (Entries.find? adds name).elim
        (Entries.find? sets name)
        (fun added =>
          some (Members.insertAll
            ((Entries.find? sets name).getD []) added)) :=
  Entries.find?_foldl _
    (fun added before =>
      some (Members.insertAll (before.getD []) added))
    (fun sets first _ other =>
      Entries.find?_insert sets first other _)
    hAsc sets name

/- Updates of maps are made one after the other. -/
theorem applyAll_eq_foldlM
    (updates : List (String × Update))
    (maps : List (String × CrdtMap)) :
    applyAll updates maps =
      updates.foldlM
        (fun maps (name, update) => do
          let before :=
            (Entries.find? maps name).getD .empty
          let after ← update.apply before
          return Entries.insert maps name after)
        maps := by
  induction updates generalizing maps with
  | nil => rfl
  | cons entry rest ih =>
      rcases entry with ⟨name, update⟩
      rw [applyAll, List.foldlM_cons]
      simp only [ih]
      cases update.apply
        ((Entries.find? maps name).getD .empty) <;> rfl

/- Updates are made to the maps of their names. -/
theorem find?_applyAll
    {updates : Entries Update}
    (hAsc : Entries.Ascending updates)
    {maps after : Entries CrdtMap}
    (hApply : applyAll updates maps = .ok after)
    (name : String) :
    (Entries.find? updates name).elim
      (Entries.find? after name = Entries.find? maps name)
      (fun update =>
        ∃ made,
          update.apply
              ((Entries.find? maps name).getD .empty) =
            .ok made ∧
          Entries.find? after name = some made) := by
  rw [applyAll_eq_foldlM] at hApply
  refine
    Entries.find?_foldlM _
      (fun update before => update.apply (before.getD .empty))
      ?_ hAsc hApply name
  intro maps first update after hStep
  rcases bind_eq_ok_iff.mp hStep with ⟨made, hMade, hAfter⟩
  cases hAfter
  exact ⟨made, hMade, rfl⟩

------------------------------------------------------------
-- Entries
------------------------------------------------------------

namespace Entry

/-
  The set after an update: members are removed before others
  are added, and only an addition makes a set.
-/
def newSet
    (entry : Entry)
    (before : Option Members) : Option Members :=
  let kept :=
    before.map (Members.remove · (entry.removes.getD []))
  entry.adds.elim kept fun added =>
    some (Members.insertAll (kept.getD []) added)

/- Members that are not removed, or that are added, are left. -/
theorem mem_newSet
    {entry : Entry}
    {before : Option Members}
    {item : Bytes} :
    item ∈ (entry.newSet before).getD [] ↔
      (item ∈ before.getD [] ∧
        item ∉ entry.removes.getD []) ∨
        item ∈ entry.adds.getD [] := by
  have hKept :
      item ∈
          (before.map
            (Members.remove · (entry.removes.getD []))).getD
              [] ↔
        item ∈ before.getD [] ∧
          item ∉ entry.removes.getD [] := by
    cases before <;> simp [Members.remove]
  unfold newSet
  cases entry.adds with
  | none => simpa using hKept
  | some added =>
      simp only [Option.elim_some, Option.getD_some,
        Members.mem_insertAll, hKept]

/- Members listed by a handle are removed and added alike. -/
theorem mem_newSet_iff
    {entry : Entry}
    {adds removes : List Bytes}
    (hAdds : entry.adds = added adds)
    (hRemoves : entry.removes = removed removes)
    {before : Option Members}
    {item : Bytes} :
    item ∈ (entry.newSet before).getD [] ↔
      (item ∈ before.getD [] ∧ item ∉ removes) ∨
        item ∈ adds := by
  have hRemoved : (removed removes).getD [] = removes := by
    unfold removed
    split
    · rename_i hNil
      exact hNil.symm
    · rfl
  have hAdded :
      item ∈ (added adds).getD [] ↔ item ∈ adds := by
    unfold added
    split
    · rename_i hNil
      rw [hNil, Option.getD_none]
    · simp only [Option.getD_some, mem_foldl_withMember,
        List.not_mem_nil, false_or]
  rw [mem_newSet, hAdds, hRemoves, hRemoved, hAdded]

/- What is written makes one entry of a map out of another. -/
structure Makes
    (entry : Entry)
    (before after : CrdtMap.Entry) : Prop where
  register :
    after.register = entry.register.or before.register
  counter :
    entry.counter.elim (after.counter = before.counter)
      fun amount =>
        ∃ sum,
          sumOf amount before.counter = .ok sum ∧
          after.counter = some sum
  set : after.set = entry.newSet before.set
  flag : after.flag = entry.flag.or before.flag
  map :
    entry.map.elim (after.map = before.map)
      fun update =>
        ∃ made,
          update.apply (before.map.getD .empty) = .ok made ∧
          after.map = some made

/- What writes nothing leaves an entry as it was. -/
theorem Makes.eq_of_none
    {before after : CrdtMap.Entry}
    (hMakes : Makes .none before after) :
    after = before := by
  have hSet : after.set = before.set := by
    refine hMakes.set.trans ?_
    simp [newSet, none, Members.remove_nil]
  rcases before with ⟨register, counter, set, flag, map⟩
  rcases after with ⟨_, _, _, _, _⟩
  cases hMakes.register
  cases hMakes.counter
  cases hSet
  cases hMakes.flag
  cases hMakes.map
  rfl

end Entry

/- An update makes the entry of each name from the old one. -/
theorem makes_of_apply
    {update : Update}
    (hWell : update.WellFormed)
    {map after : CrdtMap}
    (hApply : update.apply map = .ok after)
    (name : String) :
    (update.entry name).Makes (map.entry name)
      (after.entry name) := by
  rcases wellFormed_iff.mp hWell with
    ⟨hRegisters, hCounters, hAdds, hRemoves, hFlags, hMaps,
      _⟩
  rcases update
    with ⟨registers, counters, adds, removes, flags, maps⟩
  rw [apply, bind_eq_ok_iff] at hApply
  rcases hApply with ⟨summed, hSummed, hRest⟩
  rcases bind_eq_ok_iff.mp hRest with ⟨merged, hMerged, hDone⟩
  cases hDone
  refine ⟨?_, ?_, ?_, ?_, ?_⟩
  · exact find?_overwrite hRegisters map.registers name
  · exact find?_addAmounts hCounters hSummed name
  · have hSet :=
      find?_addToSets hAdds
        (removeFromSets map.sets removes) name
    rw [find?_removeFromSets hRemoves] at hSet
    refine hSet.trans ?_
    simp only [Entry.newSet, entry, adds?, removes?,
      CrdtMap.entry, CrdtMap.set?]
    cases Entries.find? removes name <;>
      simp [Members.remove_nil]
  · exact find?_overwrite hFlags map.flags name
  · exact find?_applyAll hMaps hMerged name

end Update

end CrdtDoc
