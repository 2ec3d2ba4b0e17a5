import CrdtDoc.Members
import Mathlib.Data.List.GetD

/-
  Halving finds the place of a member in an ascending list,
  so that insertions keep the members of a set in ascending
  order.

  Main declarations:
    * `Members.ascending_insert`
    * `Members.ascending_insertAll`
    * `Members.mem_insertAll`
    * `Members.Ascending.ext`
-/

namespace CrdtDoc

namespace Members

------------------------------------------------------------
-- The Place of a Member
------------------------------------------------------------

/- In an ascending list, later members are greater. -/
theorem Ascending.getD_lt
    {members : Members}
    (hAsc : Ascending members)
    {i j : Nat}
    (hLess : i < j)
    (hBound : j < members.length) :
    members.getD i [] < members.getD j [] := by
  have hPairs := List.pairwise_iff_getElem.mp hAsc
  have hLower : i < members.length := by
    omega
  rw [List.getD_eq_getElem _ _ hLower,
    List.getD_eq_getElem _ _ hBound]
  exact hPairs i j hLower hBound hLess

/- Only at the very start is the place below a greater one. -/
theorem locate_not_lt
    {members : Members}
    {member : Bytes}
    {base size : Nat}
    (hBase :
      base = 0 ∨ ¬member < members.getD base []) :
    locate members member base size = 0 ∨
      ¬member <
        members.getD (locate members member base size)
          [] := by
  fun_induction locate members member base size with
  | case1 base size hSize => exact hBase
  | case2 base size hSize middle hLess ih => exact ih hBase
  | case3 base size hSize middle hLess ih =>
      exact ih (Or.inr hLess)

/- All members behind the place are greater. -/
theorem lt_getD_of_locate_lt
    {members : Members}
    {member : Bytes}
    (hAsc : Ascending members)
    {base size : Nat}
    (hSize : base + size ≤ members.length)
    (hAbove :
      ∀ i, base + size ≤ i → i < members.length →
        member < members.getD i [])
    {i : Nat}
    (hPlace : locate members member base size < i)
    (hBound : i < members.length) :
    member < members.getD i [] := by
  fun_induction locate members member base size with
  | case1 base size hSmall =>
      exact hAbove i (by omega) hBound
  | case2 base size hLarge middle hLess ih =>
      apply ih (by omega) ?_ hPlace
      intro j hFrom hTo
      by_cases hMiddle : middle = j
      · exact hMiddle ▸ hLess
      · have hAfter : middle < j := by
          omega
        exact List.lt_trans hLess
          (hAsc.getD_lt hAfter hTo)
  | case3 base size hLarge middle hLess ih =>
      apply ih (by omega) ?_ hPlace
      intro j hFrom hTo
      exact hAbove j (by omega) hTo

------------------------------------------------------------
-- Insertions
------------------------------------------------------------

/- A list that is cut around a member stays ascending. -/
theorem ascending_take_cons_drop
    {members : Members}
    {member : Bytes}
    {place : Nat}
    (hAsc : Ascending members)
    (hBefore :
      ∀ i < place, i < members.length →
        members.getD i [] < member)
    (hAfter :
      ∀ i, place ≤ i → i < members.length →
        member < members.getD i []) :
    Ascending
      (members.take place ++
        member :: members.drop place) := by
  have hLow : ∀ other ∈ members.take place,
      other < member := by
    intro other hMem
    rcases List.mem_take_iff_getElem.mp hMem
      with ⟨i, hBound, hGet⟩
    have hLess := hBefore i (by omega) (by omega)
    rwa [List.getD_eq_getElem _ _ (by omega), hGet]
      at hLess
  have hHigh : ∀ other ∈ members.drop place,
      member < other := by
    intro other hMem
    rcases List.mem_drop_iff_getElem.mp hMem
      with ⟨i, hBound, hGet⟩
    have hLess := hAfter (i + place) (by omega) (by omega)
    rw [List.getD_eq_getElem _ _ (by omega)] at hLess
    simpa only [Nat.add_comm, hGet] using hLess
  refine List.pairwise_append.mpr ⟨?_, ?_, ?_⟩
  · exact List.Pairwise.sublist
      (List.take_sublist place members) hAsc
  · refine List.pairwise_cons.mpr ⟨hHigh, ?_⟩
    exact List.Pairwise.sublist
      (List.drop_sublist place members) hAsc
  · intro left hLeft right hRight
    rcases List.mem_cons.mp hRight with hEq | hMem
    · exact hEq ▸ hLow left hLeft
    · exact List.lt_trans (hLow left hLeft)
        (hHigh right hMem)

/- Of two different byte strings, one is less. -/
theorem lt_of_not_lt_of_ne
    {a b : Bytes}
    (hNot : ¬a < b)
    (hNe : a ≠ b) :
    b < a :=
  Decidable.byContradiction fun hBack =>
    hNe (List.le_antisymm (List.not_lt.mp hBack)
      (List.not_lt.mp hNot))

/- An insertion keeps the order. -/
theorem ascending_insert
    {members : Members}
    (hAsc : Ascending members)
    (member : Bytes) :
    Ascending (insert members member) := by
  unfold insert
  simp only
  split
  · exact List.pairwise_singleton _ _
  · rename_i found hFound
    rcases List.getElem?_eq_some_iff.mp hFound
      with ⟨hBound, hGet⟩
    have hGetD :
        members.getD
          (locate members member 0 members.length) [] =
            found := by
      rw [List.getD_eq_getElem _ _ hBound, hGet]
    have hBehind :
        ∀ i,
          locate members member 0 members.length < i →
          i < members.length →
            member < members.getD i [] := by
      intro i hPlace hLength
      exact lt_getD_of_locate_lt hAsc (by omega)
        (by intro j hFrom hTo; omega) hPlace hLength
    split
    · exact hAsc
    · rename_i hNe
      split
      · rename_i hLess
        apply ascending_take_cons_drop hAsc
        · intro i hPlace hLength
          by_cases hLast :
              i = locate members member 0 members.length
          · rw [hLast, hGetD]
            exact hLess
          · have hBefore :
                members.getD i [] < found := by
              rw [← hGetD]
              exact hAsc.getD_lt (by omega) hBound
            exact List.lt_trans hBefore hLess
        · intro i hPlace hLength
          exact hBehind i (by omega) hLength
      · rename_i hNot
        have hLess : member < found :=
          lt_of_not_lt_of_ne hNot hNe
        have hStart :
            locate members member 0 members.length = 0 := by
          have hFirst :
              locate members member 0 members.length = 0 ∨
                ¬member <
                  members.getD
                    (locate members member 0 members.length)
                    [] :=
            locate_not_lt (Or.inl rfl)
          rcases hFirst with hZero | hLow
          · exact hZero
          · exact absurd (hGetD.symm ▸ hLess) hLow
        rw [hStart] at hGetD ⊢
        apply ascending_take_cons_drop hAsc
        · intro i hPlace
          omega
        · intro i hPlace hLength
          by_cases hFirst : i = 0
          · rw [hFirst, hGetD]
            exact hLess
          · exact hBehind i (by omega) hLength

/- Several insertions keep the order. -/
theorem ascending_insertAll
    {members : Members}
    (hAsc : Ascending members)
    (added : List Bytes) :
    Ascending (insertAll members added) := by
  unfold insertAll
  induction added generalizing members with
  | nil => exact hAsc
  | cons member rest ih =>
      exact ih (ascending_insert hAsc member)

/- Several insertions add their members and nothing else. -/
theorem mem_insertAll
    {members : Members}
    {added : List Bytes}
    {other : Bytes} :
    other ∈ insertAll members added ↔
      other ∈ members ∨ other ∈ added := by
  unfold insertAll
  induction added generalizing members with
  | nil => simp
  | cons member rest ih =>
      rw [List.foldl_cons, ih, mem_insert, List.mem_cons]
      constructor
      · rintro ((hEq | hOld) | hRest)
        · exact Or.inr (Or.inl hEq)
        · exact Or.inl hOld
        · exact Or.inr (Or.inr hRest)
      · rintro (hOld | hEq | hRest)
        · exact Or.inl (Or.inr hOld)
        · exact Or.inl (Or.inl hEq)
        · exact Or.inr hRest

------------------------------------------------------------
-- Equality
------------------------------------------------------------

variable {members other : Members}

/- Ascending members are different from each other. -/
theorem Ascending.nodup
    (hMembers : members.Ascending) :
    members.Nodup := by
  refine List.Pairwise.imp ?_ hMembers
  rintro left _ hLess rfl
  exact List.lt_irrefl left hLess

/- Ascending members are the same if they are the same set. -/
theorem Ascending.ext
    (hMembers : members.Ascending)
    (hOther : other.Ascending)
    (hSame : ∀ member, member ∈ members ↔ member ∈ other) :
    members = other := by
  have hPerm : members.Perm other :=
    (List.perm_ext_iff_of_nodup hMembers.nodup
      hOther.nodup).mpr hSame
  refine hPerm.eq_of_pairwise ?_ hMembers hOther
  intro left right _ _ hLess hBack
  exact absurd (List.lt_trans hLess hBack)
    (List.lt_irrefl left)

/- A member that is there is not added again. -/
theorem insert_of_mem
    (hMembers : members.Ascending)
    {member : Bytes}
    (hMem : member ∈ members) :
    insert members member = members := by
  refine (ascending_insert hMembers member).ext hMembers ?_
  intro other
  rw [mem_insert]
  constructor
  · rintro (hEq | hOther)
    · exact hEq ▸ hMem
    · exact hOther
  · exact Or.inr

end Members

end CrdtDoc
