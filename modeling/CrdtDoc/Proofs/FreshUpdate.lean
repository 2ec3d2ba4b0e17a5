import CrdtDoc.Proofs.DocumentOrder
import CrdtDoc.Proofs.FreshReading
import CrdtDoc.Proofs.RoundTrip

/-
  This file describes what an update makes of a fresh map,
  if the result is the fresh map of a third update: name by
  name, and in the map of a path.

  Main declarations:
    * `Update.wellFormed_fresh`
    * `Update.apply_fresh`
    * `Update.apply_fresh_within`
    * `Update.Entry.makes_fresh`
    * `Update.Entry.makes_of_registers`
    * `Update.Entry.makes_ofMap`
    * `Update.Entry.makes_added`
-/

namespace CrdtDoc

namespace Update

------------------------------------------------------------
-- Maps
------------------------------------------------------------

variable {first second third : Update}

/- An ordered update makes an ordered map out of nothing. -/
theorem wellFormed_fresh
    {update : Update}
    (hWell : update.WellFormed) :
    update.fresh.WellFormed :=
  wellFormed_of_apply update CrdtMap.wellFormed_empty
    (apply_empty update hWell)

/- A fresh map is made of another one name by name. -/
theorem apply_fresh
    (hFirst : first.WellFormed)
    (hSecond : second.WellFormed)
    (hThird : third.WellFormed)
    (hMakes :
      ∀ name,
        (second.entry name).Makes (first.entry name).fresh
          (third.entry name).fresh) :
    second.apply first.fresh = .ok third.fresh := by
  refine (apply_eq_ok_iff_makes hSecond
    (wellFormed_fresh hFirst) (wellFormed_fresh hThird)).mpr ?_
  intro name
  rw [entry_fresh, entry_fresh]
  exact hMakes name

/- What is made of a fresh map is made of it at a path. -/
theorem apply_fresh_within
    (hApply : second.apply first.fresh = .ok third.fresh)
    (path : List String) :
    (second.within path).apply (first.within path).fresh =
      .ok (third.within path).fresh := by
  have hPut :
      (first.within path).fresh.putAt third.fresh path =
        (third.within path).fresh := by
    clear hApply
    induction path with
    | nil => rfl
    | cons name rest ih =>
        rw [CrdtMap.putAt, CrdtMap.child, map?_fresh_within,
          Option.getD_some, ih]
        simp [within, setChild, empty, fresh, freshAll,
          Entries.insert]
  rw [apply_within, CrdtMap.reach, at?_fresh_within,
    Option.getD_some, hApply]
  exact congrArg Except.ok hPut

------------------------------------------------------------
-- Entries
------------------------------------------------------------

namespace Entry

/- What writes nothing makes an entry of itself. -/
theorem makes_none
    (before : CrdtMap.Entry) :
    Makes .none before before where
  register := rfl
  counter := rfl
  set := by simp [newSet, none, Members.remove_nil]
  flag := rfl
  map := rfl

/- What is written makes a fresh entry out of nothing. -/
theorem makes_fresh
    {entry : Entry}
    (hMap :
      ∀ child, entry.map = some child → child.WellFormed) :
    entry.Makes .none entry.fresh where
  register := (Option.or_none).symm
  counter := by
    cases hAmount : entry.counter with
    | none => exact hAmount
    | some amount =>
        refine ⟨amount, ?_, hAmount⟩
        rw [sumOf_eq_ok_iff]
        exact Integer.zero_add? amount
  set := by
    cases hAdds : entry.adds <;>
      simp [fresh, newSet, hAdds, CrdtMap.Entry.none]
  flag := (Option.or_none).symm
  map := by
    cases hChild : entry.map with
    | none => simp [fresh, hChild, CrdtMap.Entry.none]
    | some child =>
        refine ⟨child.fresh, ?_, by simp [fresh, hChild]⟩
        exact apply_empty child (hMap child hChild)

section Scalars

variable {old new after : Entry}

/- A register written replaces the one before it. -/
theorem makes_of_registers
    {before bytes : Bytes}
    (hOld : old = ofRegister before)
    (hNew : new = ofRegister bytes)
    (hAfter : after = ofRegister bytes) :
    new.Makes old.fresh after.fresh := by
  subst hOld hNew hAfter
  exact ⟨rfl, rfl, rfl, rfl, rfl⟩

/- A flag written replaces the one before it. -/
theorem makes_of_flags
    {before state : Bool}
    (hOld : old = { none with flag := some before })
    (hNew : new = { none with flag := some state })
    (hAfter : after = { none with flag := some state }) :
    new.Makes old.fresh after.fresh := by
  subst hOld hNew hAfter
  exact ⟨rfl, rfl, rfl, rfl, rfl⟩

end Scalars

/- A map is made of the one before it. -/
theorem makes_ofMap
    (hApply : second.apply first.fresh = .ok third.fresh) :
    (ofMap second).Makes (ofMap first).fresh
      (ofMap third).fresh :=
  ⟨rfl, rfl, rfl, rfl, third.fresh, hApply, rfl⟩

/- A fresh set has the members that were added. -/
theorem mem_map_added_iff
    {members : List Bytes}
    {member : Bytes} :
    member ∈
        ((added members).map (Members.insertAll [])).getD
          [] ↔
      member ∈ members := by
  by_cases hNil : members = []
  · subst hNil
    exact Iff.rfl
  · rcases exists_insertAll_added hNil
      with ⟨set, hSet, _, hMembers⟩
    rw [hSet, Option.getD_some, hMembers]

/- Fresh sets of the same members are the same. -/
theorem fresh_added_congr
    {left right : List Bytes}
    (hSame : ∀ member, member ∈ left ↔ member ∈ right) :
    fresh { none with adds := added left } =
      fresh { none with adds := added right } := by
  have hNil : left = [] ↔ right = [] := by
    simp only [List.eq_nil_iff_forall_not_mem, hSame]
  by_cases hLeft : left = []
  · rw [hLeft, hNil.mp hLeft]
  · rcases exists_insertAll_added hLeft
      with ⟨set, hSet, hAscending, hMembers⟩
    rcases exists_insertAll_added (mt hNil.mpr hLeft)
      with ⟨other, hOther, hAscending', hMembers'⟩
    have hEq : set = other := by
      refine hAscending.ext hAscending' ?_
      intro member
      rw [hMembers, hMembers', hSame]
    simp only [fresh, hSet, hOther, hEq]

/- Members added to a fresh set make a fresh set of all. -/
theorem newSet_map_added
    {old new : List Bytes}
    (hNew : new ≠ []) :
    newSet { none with adds := added new }
        ((added old).map (Members.insertAll [])) =
      (added (old ++ new)).map (Members.insertAll []) := by
  generalize hBefore :
    (added old).map (Members.insertAll []) = before
  have hOld :
      ∀ member, member ∈ before.getD [] ↔ member ∈ old := by
    intro member
    rw [← hBefore]
    exact mem_map_added_iff
  have hKept : Members.Ascending (before.getD []) := by
    rw [← hBefore]
    cases added old with
    | none => exact .nil
    | some members =>
        exact Members.ascending_insertAll .nil members
  have hMade :
      newSet { none with adds := added new } before =
        some (Members.insertAll (before.getD [])
          (new.foldl withMember [])) := by
    rw [newSet, added, if_neg hNew]
    cases before <;> simp [none, Members.remove_nil]
  rcases exists_insertAll_added
    (List.append_ne_nil_of_right_ne_nil old hNew)
    with ⟨set, hSet, hAscending, hMembers⟩
  rw [hMade, hSet]
  refine congrArg some
    ((Members.ascending_insertAll hKept _).ext hAscending ?_)
  intro member
  rw [Members.mem_insertAll, mem_foldl_withMember, hMembers,
    List.mem_append, hOld]
  simp only [List.not_mem_nil, false_or]

/- Members are added to those of the set before. -/
theorem makes_added
    (old new : List Bytes) :
    Makes { none with adds := added new }
      { none with adds := added old }.fresh
      { none with adds := added (old ++ new) }.fresh where
  register := rfl
  counter := rfl
  set := by
    by_cases hNew : new = []
    · subst hNew
      rw [List.append_nil]
      exact (makes_none _).set
    · exact (newSet_map_added hNew).symm
  flag := rfl
  map := rfl

end Entry

end Update

/- What is made of a document at a path is read there. -/
theorem Schema.decodeDocument_fresh_within
    (schema : Schema)
    (inner : Update)
    (root : Path)
    (context : Bytes)
    (old : schema.Document) :
    schema.decodeDocument (inner.within root.segments).fresh
        context root old =
      schema.decode ⟨inner.fresh, root, context⟩ old := by
  rw [decodeDocument, Update.at?_fresh_within]
  rfl

end CrdtDoc
