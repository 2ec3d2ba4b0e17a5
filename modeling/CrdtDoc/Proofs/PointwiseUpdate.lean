import CrdtDoc.Proofs.DocumentOrder

/-
  This file states what an update computes, for every path
  and name of a document: registers and flags are replaced,
  amounts are added to counters, and a set has the members
  that are left of it and those added, in order.  An update
  can be made if and only if all sums are in range.

  Key definitions include:
    * `IntType.Holds`
    * `CrdtMap.count`
    * `Update.amount`
    * `Update.Entry.Computes`
    * `Update.Computes`

  Main declarations:
    * `Update.fits_iff`
    * `Update.computes_of_apply`
    * `Update.exists_computes_of_sums`
-/

namespace CrdtDoc

------------------------------------------------------------
-- Sums
------------------------------------------------------------

/- Is a number in the range of a size? -/
def IntType.Holds
    (type : IntType)
    (n : Int) : Prop :=
  type.least ≤ n ∧ n ≤ type.greatest

/- The value of a counter, zero if it is missing. -/
def CrdtMap.Entry.count
    (entry : CrdtMap.Entry) : Int :=
  (entry.counter.getD .zero).toInt

/- The value of the counter under a path and a name. -/
def CrdtMap.count
    (map : CrdtMap)
    (path : List String)
    (name : String) : Int :=
  (map.leaf path name).count

/- The value of a counter is in range. -/
theorem CrdtMap.holds_count
    (map : CrdtMap)
    (path : List String)
    (name : String) :
    IntType.i64.Holds (map.count path name) :=
  let value := (map.leaf path name).counter.getD .zero
  ⟨value.least_le, value.le_greatest⟩

namespace Update

/- The amount added to a counter, zero if there is none. -/
def Entry.amount
    (entry : Entry) : Int :=
  (entry.counter.getD .zero).toInt

/- The amount for the counter under a path and a name. -/
def amount
    (update : Update)
    (path : List String)
    (name : String) : Int :=
  (update.leaf path name).amount

variable {update : Update} {map after : CrdtMap}

/- An update fits a document if all sums are in range. -/
theorem fits_iff :
    update.Fits map ↔
      ∀ path name,
        IntType.i64.Holds
          (map.count path name + update.amount path name) := by
  constructor
  · intro hFits path name
    cases hAmount : (update.leaf path name).counter with
    | none =>
        have hZero : update.amount path name = 0 := by
          rw [Update.amount, Entry.amount, hAmount]
          rfl
        rw [hZero, Int.add_zero]
        exact map.holds_count path name
    | some amount =>
        rcases hFits path name amount hAmount with ⟨sum, hSum⟩
        have hValue := sumOf_eq_ok_iff_toInt.mp hSum
        rw [Update.amount, Entry.amount, hAmount]
        exact hValue ▸ ⟨sum.least_le, sum.le_greatest⟩
  · intro hSums path name amount hAmount
    have hSum := hSums path name
    rw [Update.amount, Entry.amount, hAmount] at hSum
    exact
      ⟨⟨_, hSum.1, hSum.2⟩, sumOf_eq_ok_iff_toInt.mpr rfl⟩

------------------------------------------------------------
-- Entries
------------------------------------------------------------

namespace Entry

variable {entry : Entry} {before after : CrdtMap.Entry}

/- There is a set if there was one or members are added. -/
theorem isSome_newSet
    {set : Option Members} :
    (entry.newSet set).isSome ↔
      set.isSome ∨ entry.adds.isSome := by
  unfold newSet
  cases entry.adds <;> simp

/-
  What is written under a name computes one entry of another,
  apart from maps.
-/
structure Computes
    (entry : Entry)
    (before after : CrdtMap.Entry) : Prop where
  register :
    after.register = entry.register.or before.register
  flag : after.flag = entry.flag.or before.flag
  counter_of_none :
    entry.counter = .none → after.counter = before.counter
  counter_of_some :
    ∀ amount,
      entry.counter = some amount →
      ∃ sum,
        after.counter = some sum ∧
        sum.toInt = before.count + amount.toInt
  isSome_set :
    after.set.isSome ↔
      before.set.isSome ∨ entry.adds.isSome
  mem_set :
    ∀ member,
      member ∈ after.set.getD [] ↔
        (member ∈ before.set.getD [] ∧
          member ∉ entry.removes.getD []) ∨
        member ∈ entry.adds.getD []
  ascending : Members.Ascending (after.set.getD [])

/- The entry that is made is the one computed. -/
theorem Makes.computes
    (hMakes : entry.Makes before after)
    (hAscending : Members.Ascending (after.set.getD [])) :
    entry.Computes before after where
  register := hMakes.register
  flag := hMakes.flag
  counter_of_none := hMakes.counter_eq
  counter_of_some := by
    intro amount hAmount
    have hCounter := hMakes.counter
    rw [hAmount] at hCounter
    rcases hCounter with ⟨sum, hSum, hAfter⟩
    exact ⟨sum, hAfter, sumOf_eq_ok_iff_toInt.mp hSum⟩
  isSome_set := by
    rw [hMakes.set]
    exact isSome_newSet
  mem_set := by
    intro member
    rw [hMakes.set]
    exact mem_newSet
  ascending := hAscending

namespace Computes

/- There is a counter if there was one or it is added to. -/
theorem isSome_counter
    (hComputes : entry.Computes before after) :
    after.counter.isSome ↔
      before.counter.isSome ∨ entry.counter.isSome := by
  cases hAmount : entry.counter with
  | none => simp [hComputes.counter_of_none hAmount]
  | some amount =>
      rcases hComputes.counter_of_some amount hAmount
        with ⟨sum, hSum, _⟩
      simp [hSum]

/- A counter has the sum of its value and the amount. -/
theorem count_eq
    (hComputes : entry.Computes before after) :
    after.count = before.count + entry.amount := by
  unfold amount
  cases hAmount : entry.counter with
  | none =>
      rw [CrdtMap.Entry.count,
        hComputes.counter_of_none hAmount]
      exact (Int.add_zero _).symm
  | some amount =>
      rcases hComputes.counter_of_some amount hAmount
        with ⟨sum, hSum, hValue⟩
      rw [CrdtMap.Entry.count, hSum]
      exact hValue

end Computes

end Entry

------------------------------------------------------------
-- Documents
------------------------------------------------------------

/-
  An update computes one document of another: each entry, and
  the maps that were there or are named.
-/
structure Computes
    (update : Update)
    (before after : CrdtMap) : Prop where
  leaf :
    ∀ path name,
      (update.leaf path name).Computes
        (before.leaf path name) (after.leaf path name)
  maps :
    ∀ path,
      (after.at? path).isSome ↔
        (before.at? path).isSome ∨ (update.at? path).isSome

/- The document after an update is the one computed. -/
theorem computes_of_apply
    (hWell : update.WellFormed)
    (hMap : map.WellFormed)
    (hApply : update.apply map = .ok after) :
    update.Computes map after := by
  have hAfter := wellFormed_of_apply update hMap hApply
  constructor
  · intro path name
    exact (makes_leaf_of_apply hWell hApply path name).computes
      (ascending_leaf hAfter path name)
  · exact isSome_at?_of_apply hWell hApply

/-
  An update of an ordered document that keeps all counters in
  range can be made, and computes an ordered document.
-/
theorem exists_computes_of_sums
    (hWell : update.WellFormed)
    (hMap : map.WellFormed)
    (hSums :
      ∀ path name,
        IntType.i64.Holds
          (map.count path name + update.amount path name)) :
    ∃ after,
      update.apply map = .ok after ∧
      after.WellFormed ∧
      update.Computes map after := by
  rcases exists_apply update hWell (fits_iff.mpr hSums)
    with ⟨after, hApply⟩
  exact
    ⟨after, hApply, wellFormed_of_apply update hMap hApply,
      computes_of_apply hWell hMap hApply⟩

/- A set of a map within loses, keeps and gets members. -/
theorem exists_computes_of_sums_within :
    let two : Integer .i64 := ⟨2, by decide, by decide⟩
    let least : Integer .i64 :=
      ⟨IntType.i64.least, by decide, by decide⟩
    let inner : Update :=
      { empty with
        counters := [("n", two)]
        adds := [("n", [[4], [1], [4]])]
        removes := [("n", [[1], [2], [2]])]
        maps := [("new", empty)] }
    let update : Update :=
      { empty with
        registers := [("n", [7])]
        adds := [("t", [])]
        removes := [("u", [[1]])]
        flags := [("n", false)]
        maps := [("in", inner)] }
    let old : CrdtMap :=
      { CrdtMap.empty with
        counters := [("n", least)]
        sets := [("n", [[1], [2], [3]])] }
    let map : CrdtMap :=
      { CrdtMap.empty with
        flags := [("n", true)]
        maps := [("in", old)] }
    (update.WellFormed ∧
      map.WellFormed ∧
      ∀ path name,
        IntType.i64.Holds
          (map.count path name + update.amount path name)) ∧
    ∃ after,
      update.apply map = .ok after ∧
      after.WellFormed ∧
      update.Computes map after := by
  intro two least inner update old map
  have hWell : update.WellFormed := by
    simp [update, inner, WellFormed, AllWellFormed,
      Entries.Ascending, empty]
  have hMap : map.WellFormed := by
    have hMembers :
        Members.Ascending [[1], [2], [3]] := by
      unfold Members.Ascending
      decide
    simp [map, old, CrdtMap.WellFormed,
      CrdtMap.AllWellFormed, CrdtMap.empty,
      Entries.Ascending, hMembers]
  have hSums :
      ∀ path name,
        IntType.i64.Holds
          (map.count path name + update.amount path name) := by
    have hApply : ∃ after, update.apply map = .ok after :=
      ⟨_, by cbv⟩
    exact fits_iff.mp ((exists_apply_iff hWell).mp hApply)
  exact
    ⟨⟨hWell, hMap, hSums⟩,
      exists_computes_of_sums hWell hMap hSums⟩

end Update

end CrdtDoc
