import CrdtDoc.Bytes

/-
  This file defines the members of a stored set: a list of
  byte strings in ascending order.  A member is placed by
  halving, so that a list out of order, which only outside
  data can hold, is searched as an ordered one.

  Key definitions include:
    * `Members`
    * `Members.locate`
    * `Members.insert`
    * `Members.remove`
    * `Members.Ascending`
-/

namespace CrdtDoc

/- The members of a set. -/
abbrev Members :=
  List Bytes

namespace Members

/- Each member is less than all after it. -/
def Ascending
    (members : Members) : Prop :=
  members.Pairwise (· < ·)

/-
  The last of `size` places from `base` on that halving
  leaves for a member: no greater member is kept below it.
-/
def locate
    (members : Members)
    (member : Bytes)
    (base size : Nat) : Nat :=
  if size ≤ 1 then base
  else
    let middle := base + size / 2
    if member < members.getD middle [] then
      locate members member base (size - size / 2)
    else
      locate members member middle (size - size / 2)
termination_by size

/- Put a member in its place, unless it stands there. -/
def insert
    (members : Members)
    (member : Bytes) : Members :=
  let place := locate members member 0 members.length
  match members[place]? with
  | none => [member]
  | some found =>
      if found = member then members
      else
        let place := if found < member then place + 1 else place
        members.take place ++ member :: members.drop place

/- Put several members in their places. -/
def insertAll
    (members : Members)
    (added : List Bytes) : Members :=
  added.foldl insert members

/- Take some members away, wherever they stand. -/
def remove
    (members : Members)
    (removed : List Bytes) : Members :=
  members.filter fun member => !removed.contains member

/- The place found is within the places searched. -/
theorem locate_lt
    (members : Members)
    (member : Bytes)
    (base size : Nat)
    (hSize : 0 < size) :
    locate members member base size < base + size := by
  fun_induction locate members member base size <;> omega

/-
  A member that is not there is put between two parts of the
  others, and nothing is done about one that is found.
-/
theorem insert_eq_or
    (members : Members)
    (member : Bytes) :
    (member ∈ members ∧ insert members member = members) ∨
    ∃ front back,
      members = front ++ back ∧
      insert members member = front ++ member :: back := by
  unfold insert
  simp only
  split
  · rename_i hNone
    have hEmpty : members = [] := by
      refine Decidable.byContradiction fun hNot => ?_
      have hPos : 0 < members.length :=
        List.length_pos_iff.mpr hNot
      have hLess :=
        locate_lt members member 0 members.length hPos
      rw [List.getElem?_eq_none_iff] at hNone
      omega
    exact Or.inr ⟨[], [], hEmpty, rfl⟩
  · rename_i found hFound
    split
    · rename_i hEq
      exact Or.inl
        ⟨hEq ▸ List.mem_of_getElem? hFound, rfl⟩
    · exact Or.inr
        ⟨_, _, (List.take_append_drop _ members).symm, rfl⟩

/- An insertion adds the member and nothing else. -/
theorem mem_insert
    {members : Members}
    {member other : Bytes} :
    other ∈ insert members member ↔
      other = member ∨ other ∈ members := by
  rcases insert_eq_or members member
    with ⟨hMem, hSame⟩ | ⟨front, back, hMembers, hInsert⟩
  · rw [hSame, or_iff_right_of_imp]
    intro hEq
    exact hEq ▸ hMem
  · rw [hInsert, hMembers, List.mem_append, List.mem_cons,
      List.mem_append]
    exact or_left_comm

end Members

end CrdtDoc
