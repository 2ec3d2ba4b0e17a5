import CrdtDoc.Proofs.PointwiseUpdate

/-
  This file shows what updates mean in a row.  Two updates
  that are independent of each other can be made in either
  order, and an update that adds no amounts may be made again
  without effect.

  Key definitions include:
    * `Update.Entry.IndependentOf`
    * `Update.IndependentOf`
    * `Update.FitTogether`

  Main declarations:
    * `Update.Entry.Computes.swap`
    * `Update.Entry.Computes.again`
    * `Update.fitTogether_iff`
    * `Update.apply_comm_of_independent`
    * `Update.apply_again_of_amount_zero`
-/

namespace CrdtDoc

------------------------------------------------------------
-- Options
------------------------------------------------------------

/- Options are the same if their presence and values are. -/
theorem eq_of_isSome_iff
    {α : Type}
    {left right : Option α}
    {default : α}
    (hSome : left.isSome ↔ right.isSome)
    (hGetD : left.getD default = right.getD default) :
    left = right := by
  cases left <;> cases right <;> simp_all

/- Values that agree go over another one in either order. -/
theorem or_left_comm_of_agree
    {α : Type}
    {first second : Option α}
    (hAgree :
      ∀ value ∈ first, ∀ other ∈ second, value = other)
    (before : Option α) :
    first.or (second.or before) =
      second.or (first.or before) := by
  cases first with
  | none => rfl
  | some value =>
      cases second with
      | none => rfl
      | some other =>
          exact congrArg some (hAgree value rfl other rfl)

------------------------------------------------------------
-- Entries
------------------------------------------------------------

namespace CrdtMap.Entry

variable {left right : CrdtMap.Entry}

/- Entries with the same values and members are the same. -/
theorem eq_of_mem_set
    (hRegister : left.register = right.register)
    (hFlag : left.flag = right.flag)
    (hCounter :
      left.counter.isSome ↔ right.counter.isSome)
    (hCount : left.count = right.count)
    (hSet : left.set.isSome ↔ right.set.isSome)
    (hMembers :
      ∀ member,
        member ∈ left.set.getD [] ↔
          member ∈ right.set.getD [])
    (hLeft : Members.Ascending (left.set.getD []))
    (hRight : Members.Ascending (right.set.getD []))
    (hMap : left.map = right.map) :
    left = right := by
  have hCounters : left.counter = right.counter :=
    eq_of_isSome_iff hCounter (Integer.ext hCount)
  have hSets : left.set = right.set :=
    eq_of_isSome_iff hSet (hLeft.ext hRight hMembers)
  rcases left with ⟨_, _, _, _, _⟩
  rcases right with ⟨_, _, _, _, _⟩
  rw [mk.injEq]
  exact ⟨hRegister, hCounters, hSets, hFlag, hMap⟩

end CrdtMap.Entry

namespace Update

namespace Entry

variable {entry first second : Entry}
variable {before one two other back after : CrdtMap.Entry}

/-
  No member is added by one and removed by the other, and a
  register or a flag is given the same value by both.
-/
structure IndependentOf
    (first second : Entry) : Prop where
  register :
    ∀ value ∈ first.register, ∀ other ∈ second.register,
      value = other
  flag :
    ∀ state ∈ first.flag, ∀ other ∈ second.flag,
      state = other
  added :
    ∀ member ∈ first.adds.getD [],
      member ∉ second.removes.getD []
  removed :
    ∀ member ∈ first.removes.getD [],
      member ∉ second.adds.getD []

/- Independent entries compute the same in either order. -/
theorem Computes.swap
    (hIndependent : first.IndependentOf second)
    (hOne : first.Computes before one)
    (hTwo : second.Computes one two)
    (hOther : second.Computes before other)
    (hBack : first.Computes other back)
    (hMap : two.map = back.map) :
    two = back := by
  refine CrdtMap.Entry.eq_of_mem_set ?register ?flag ?counter
    ?count ?set ?members hTwo.ascending hBack.ascending hMap
  case register =>
    rw [hTwo.register, hOne.register, hBack.register,
      hOther.register]
    exact (or_left_comm_of_agree hIndependent.register _).symm
  case flag =>
    rw [hTwo.flag, hOne.flag, hBack.flag, hOther.flag]
    exact (or_left_comm_of_agree hIndependent.flag _).symm
  case counter =>
    rw [hTwo.isSome_counter, hOne.isSome_counter,
      hBack.isSome_counter, hOther.isSome_counter]
    exact or_right_comm
  case count =>
    rw [hTwo.count_eq, hOne.count_eq, hBack.count_eq,
      hOther.count_eq]
    exact Int.add_right_comm _ _ _
  case set =>
    rw [hTwo.isSome_set, hOne.isSome_set, hBack.isSome_set,
      hOther.isSome_set]
    exact or_right_comm
  case members =>
    intro member
    -- No member is added by the one and removed by the other,
    -- so whichever comes last does not undo the first.
    have hAdded := hIndependent.added member
    have hRemoved := hIndependent.removed member
    rw [hTwo.mem_set, hOne.mem_set, hBack.mem_set,
      hOther.mem_set]
    tauto

/- What adds no amount computes nothing new the second time. -/
theorem Computes.again
    (hAmount : entry.amount = 0)
    (hFirst : entry.Computes before one)
    (hSecond : entry.Computes one two)
    (hMap : two.map = one.map) :
    two = one := by
  refine CrdtMap.Entry.eq_of_mem_set ?register ?flag ?counter
    ?count ?set ?members hSecond.ascending hFirst.ascending
    hMap
  case register =>
    rw [hSecond.register, hFirst.register, ← Option.or_assoc,
      Option.or_self]
  case flag =>
    rw [hSecond.flag, hFirst.flag, ← Option.or_assoc,
      Option.or_self]
  case counter =>
    rw [hSecond.isSome_counter, hFirst.isSome_counter]
    tauto
  case count =>
    rw [hSecond.count_eq, hAmount, Int.add_zero]
  case set =>
    rw [hSecond.isSome_set, hFirst.isSome_set]
    tauto
  case members =>
    -- The members that are removed the second time are those
    -- that were added over their removal, and they are again.
    intro member
    rw [hSecond.mem_set, hFirst.mem_set]
    tauto

end Entry

------------------------------------------------------------
-- Documents
------------------------------------------------------------

variable {update first second : Update}
variable {map one two other back after : CrdtMap}

/- Two updates are independent in every entry. -/
def IndependentOf
    (first second : Update) : Prop :=
  ∀ path name,
    (first.leaf path name).IndependentOf
      (second.leaf path name)

/- Nothing is independent of all that may be written. -/
theorem independentOf_empty
    (update : Update) :
    empty.IndependentOf update := by
  intro path name
  rw [leaf_empty]
  exact ⟨nofun, nofun, nofun, nofun⟩

/- Independence is that of the entries and of the maps. -/
theorem independentOf_iff :
    first.IndependentOf second ↔
      (∀ name,
        (first.leaf [] name).IndependentOf
          (second.leaf [] name)) ∧
      (∀ name,
        (first.child name).IndependentOf
          (second.child name)) := by
  constructor
  · intro hIndependent
    refine ⟨hIndependent [], ?_⟩
    intro child path name
    rw [← leaf_cons, ← leaf_cons]
    exact hIndependent (child :: path) name
  · rintro ⟨hHere, hWithin⟩ path name
    cases path with
    | nil => exact hHere name
    | cons child rest =>
        rw [leaf_cons, leaf_cons]
        exact hWithin child rest name

/-
  No counter of a document leaves its range when it is given
  one or both of the amounts of two updates.
-/
structure FitTogether
    (first second : Update)
    (map : CrdtMap) : Prop where
  afterFirst :
    ∀ path name,
      IntType.i64.Holds
        (map.count path name + first.amount path name)
  afterSecond :
    ∀ path name,
      IntType.i64.Holds
        (map.count path name + second.amount path name)
  afterBoth :
    ∀ path name,
      IntType.i64.Holds
        (map.count path name + first.amount path name +
          second.amount path name)

/- Updates fit in a row if all sums on the way are in range. -/
theorem exists_bind_apply_iff
    (hFirst : first.WellFormed)
    (hSecond : second.WellFormed)
    (hMap : map.WellFormed) :
    (∃ after, (first.apply map >>= second.apply) = .ok after) ↔
      (∀ path name,
        IntType.i64.Holds
          (map.count path name + first.amount path name)) ∧
      (∀ path name,
        IntType.i64.Holds
          (map.count path name + first.amount path name +
            second.amount path name)) := by
  have hCount :
      ∀ {middle : CrdtMap},
        first.apply map = .ok middle →
        ∀ path name,
          middle.count path name =
            map.count path name + first.amount path name := by
    intro middle hMiddle path name
    exact ((computes_of_apply hFirst hMap hMiddle).leaf path
      name).count_eq
  simp only [bind_eq_ok_iff]
  constructor
  · rintro ⟨after, middle, hMiddle, hAfter⟩
    have hFits := (exists_apply_iff hFirst).mp ⟨_, hMiddle⟩
    have hMore := (exists_apply_iff hSecond).mp ⟨_, hAfter⟩
    refine ⟨fits_iff.mp hFits, ?_⟩
    intro path name
    rw [← hCount hMiddle]
    exact fits_iff.mp hMore path name
  · rintro ⟨hOne, hBoth⟩
    rcases exists_apply first hFirst (fits_iff.mpr hOne)
      with ⟨middle, hMiddle⟩
    have hMore : second.Fits middle := by
      rw [fits_iff]
      intro path name
      rw [hCount hMiddle]
      exact hBoth path name
    rcases exists_apply second hSecond hMore
      with ⟨after, hAfter⟩
    exact ⟨after, middle, hMiddle, hAfter⟩

/- Updates fit together if they fit in a row in either order. -/
theorem fitTogether_iff
    (hFirst : first.WellFormed)
    (hSecond : second.WellFormed)
    (hMap : map.WellFormed) :
    first.FitTogether second map ↔
      (∃ after,
        (first.apply map >>= second.apply) = .ok after) ∧
      (∃ after,
        (second.apply map >>= first.apply) = .ok after) := by
  rw [exists_bind_apply_iff hFirst hSecond hMap,
    exists_bind_apply_iff hSecond hFirst hMap]
  constructor
  · rintro ⟨hOne, hOther, hBoth⟩
    refine ⟨⟨hOne, hBoth⟩, hOther, ?_⟩
    intro path name
    rw [Int.add_right_comm]
    exact hBoth path name
  · rintro ⟨⟨hOne, hBoth⟩, hOther, _⟩
    exact ⟨hOne, hOther, hBoth⟩

/- Independent updates make the same in either order. -/
theorem eq_of_independent
    (hIndependent : first.IndependentOf second)
    (hOne : first.Computes map one)
    (hTwo : second.Computes one two)
    (hOther : second.Computes map other)
    (hBack : first.Computes other back)
    (hTwoWell : two.WellFormed)
    (hBackWell : back.WellFormed) :
    two = back := by
  refine CrdtMap.eq_of_alike two hTwoWell hBackWell ⟨?_, ?_⟩
  · intro path name
    exact Entry.Computes.swap (hIndependent path name)
      (hOne.leaf path name) (hTwo.leaf path name)
      (hOther.leaf path name) (hBack.leaf path name) rfl
  · intro path
    rw [hTwo.maps, hOne.maps, hBack.maps, hOther.maps]
    exact or_right_comm

/-
  Two updates that are independent of each other can be made
  in either order, as long as no counter leaves its range.
-/
theorem apply_comm_of_independent
    (hFirst : first.WellFormed)
    (hSecond : second.WellFormed)
    (hMap : map.WellFormed)
    (hIndependent : first.IndependentOf second)
    (hFit : first.FitTogether second map) :
    ∃ after,
      (first.apply map >>= second.apply) = .ok after ∧
      (second.apply map >>= first.apply) = .ok after := by
  rcases (fitTogether_iff hFirst hSecond hMap).mp hFit
    with ⟨⟨two, hForward⟩, ⟨back, hBackward⟩⟩
  rcases bind_eq_ok_iff.mp hForward with ⟨one, hOne, hTwo⟩
  rcases bind_eq_ok_iff.mp hBackward with ⟨other, hOther, hBack⟩
  have hOneWell := wellFormed_of_apply first hMap hOne
  have hOtherWell := wellFormed_of_apply second hMap hOther
  have hEq : two = back :=
    eq_of_independent hIndependent
      (computes_of_apply hFirst hMap hOne)
      (computes_of_apply hSecond hOneWell hTwo)
      (computes_of_apply hSecond hMap hOther)
      (computes_of_apply hFirst hOtherWell hBack)
      (wellFormed_of_apply second hOneWell hTwo)
      (wellFormed_of_apply first hOtherWell hBack)
  exact ⟨two, hForward, hEq ▸ hBackward⟩

/- Two updates make and fill the same sets of a map within. -/
theorem apply_comm_of_independent_within :
    let two : Integer .i64 := ⟨2, by decide, by decide⟩
    let minus : Integer .i64 := ⟨-5, by decide, by decide⟩
    let inner : Update :=
      { empty with
        counters := [("n", two)]
        adds := [("n", [[3], [1]])]
        removes := [("n", [[1], [2]])]
        maps := [("new", empty)] }
    let first : Update :=
      { empty with
        flags := [("f", true)]
        maps := [("in", inner)] }
    let deep : Update :=
      { empty with
        registers := [("r", [7])]
        counters := [("n", minus)]
        adds := [("n", [[4], [3]])]
        removes := [("n", [[2], [5]])] }
    let second : Update :=
      { empty with
        removes := [("t", [[1]])]
        flags := [("f", true)]
        maps := [("in", deep)] }
    let old : CrdtMap :=
      { CrdtMap.empty with sets := [("n", [[0], [2]])] }
    let map : CrdtMap :=
      { CrdtMap.empty with maps := [("in", old)] }
    (first.WellFormed ∧
      second.WellFormed ∧
      map.WellFormed ∧
      first.IndependentOf second ∧
      first.FitTogether second map) ∧
    ∃ after,
      (first.apply map >>= second.apply) = .ok after ∧
      (second.apply map >>= first.apply) = .ok after := by
  intro two minus inner first deep second old map
  have hFirst : first.WellFormed := by
    simp [first, inner, WellFormed, AllWellFormed,
      Entries.Ascending, empty]
  have hSecond : second.WellFormed := by
    simp [second, deep, WellFormed, AllWellFormed,
      Entries.Ascending, empty]
  have hMap : map.WellFormed := by
    have hLess : ([0] : Bytes) < [2] := by
      decide
    simp [map, old, CrdtMap.WellFormed,
      CrdtMap.AllWellFormed, CrdtMap.empty,
      Entries.Ascending, Members.Ascending, hLess]
  have hInner : inner.IndependentOf deep := by
    rw [independentOf_iff]
    constructor
    · intro name
      by_cases hName : "n" = name <;>
        constructor <;>
        simp [leaf, reach, at?, entry, register?, flag?,
          adds?, removes?, inner, deep, empty,
          Entries.find?, hName]
    · intro name
      have hChild : inner.child name = empty := by
        by_cases hName : "new" = name <;>
          simp [child, map?, inner, Entries.find?, hName]
      rw [hChild]
      exact independentOf_empty _
  have hIndependent : first.IndependentOf second := by
    rw [independentOf_iff]
    constructor
    · intro name
      by_cases hName : "f" = name <;>
        constructor <;>
        simp [leaf, reach, at?, entry, register?, flag?,
          adds?, removes?, first, second, empty,
          Entries.find?, hName]
    · intro name
      by_cases hName : "in" = name
      · simpa [child, map?, first, second, Entries.find?,
          hName] using hInner
      · have hChild : first.child name = empty := by
          simp [child, map?, first, Entries.find?, hName]
        rw [hChild]
        exact independentOf_empty _
  have hFit : first.FitTogether second map := by
    rw [fitTogether_iff hFirst hSecond hMap]
    exact ⟨⟨_, by cbv⟩, ⟨_, by cbv⟩⟩
  exact
    ⟨⟨hFirst, hSecond, hMap, hIndependent, hFit⟩,
      apply_comm_of_independent hFirst hSecond hMap
        hIndependent hFit⟩

/- The later of an addition and a removal decides. -/
example :
    let adding : Update := { empty with adds := [("s", [[1]])] }
    let removing : Update :=
      { empty with removes := [("s", [[1]])] }
    (adding.apply .empty >>= removing.apply) =
      .ok { CrdtMap.empty with sets := [("s", [])] } ∧
    (removing.apply .empty >>= adding.apply) =
      .ok { CrdtMap.empty with sets := [("s", [[1]])] } :=
  ⟨by cbv, by cbv⟩

/-
  An update that adds no amounts can be made, and changes
  nothing when it is made again.
-/
theorem apply_again_of_amount_zero
    (hWell : update.WellFormed)
    (hMap : map.WellFormed)
    (hAmounts :
      ∀ path name, update.amount path name = 0) :
    ∃ after,
      update.apply map = .ok after ∧
      update.apply after = .ok after := by
  have hFits : ∀ map : CrdtMap, update.Fits map := by
    intro map
    rw [fits_iff]
    intro path name
    rw [hAmounts, Int.add_zero]
    exact map.holds_count path name
  rcases exists_apply update hWell (hFits map)
    with ⟨after, hApply⟩
  rcases exists_apply update hWell (hFits after)
    with ⟨last, hLast⟩
  have hAfterWell := wellFormed_of_apply update hMap hApply
  have hLastWell := wellFormed_of_apply update hAfterWell hLast
  have hAfter := computes_of_apply hWell hMap hApply
  have hAgain := computes_of_apply hWell hAfterWell hLast
  have hEq : last = after := by
    refine CrdtMap.eq_of_alike last hLastWell hAfterWell
      ⟨?_, ?_⟩
    · intro path name
      exact (hAfter.leaf path name).again (hAmounts path name)
        (hAgain.leaf path name) rfl
    · intro path
      rw [hAgain.maps, hAfter.maps]
      tauto
  exact ⟨after, hApply, hEq ▸ hLast⟩

/- Members are removed and added once more at two depths. -/
theorem apply_again_of_amount_zero_within :
    let inner : Update :=
      { empty with
        counters := [("n", .zero)]
        adds := [("s", [[1]])]
        removes := [("s", [[1], [2]])]
        maps := [("new", empty)] }
    let update : Update :=
      { empty with
        registers := [("r", [])]
        adds := [("s", [[3], [1], [3]])]
        removes := [("s", [[3]])]
        flags := [("f", false)]
        maps := [("in", inner)] }
    let old : CrdtMap :=
      { CrdtMap.empty with sets := [("s", [[0], [2]])] }
    let map : CrdtMap :=
      { CrdtMap.empty with
        flags := [("f", true)]
        maps := [("in", old)] }
    (update.WellFormed ∧
      map.WellFormed ∧
      ∀ path name, update.amount path name = 0) ∧
    ∃ after,
      update.apply map = .ok after ∧
      update.apply after = .ok after := by
  intro inner update old map
  have hWell : update.WellFormed := by
    simp [update, inner, WellFormed, AllWellFormed,
      Entries.Ascending, empty]
  have hMap : map.WellFormed := by
    have hLess : ([0] : Bytes) < [2] := by
      decide
    simp [map, old, CrdtMap.WellFormed,
      CrdtMap.AllWellFormed, CrdtMap.empty,
      Entries.Ascending, Members.Ascending, hLess]
  have hNothing :
      ∀ path name, empty.amount path name = 0 := by
    intro path name
    rw [amount, leaf_empty]
    rfl
  have hInner :
      ∀ path name, inner.amount path name = 0 := by
    intro path name
    rcases path with _ | ⟨first, rest⟩
    · by_cases hName : "n" = name <;>
        simp [amount, Entry.amount, leaf, reach, at?, entry,
          counter?, inner, Entries.find?, hName,
          Integer.zero]
    · have hChild : inner.child first = empty := by
        by_cases hFirst : "new" = first <;>
          simp [child, map?, inner, Entries.find?, hFirst]
      rw [amount, leaf_cons, hChild]
      exact hNothing rest name
  have hAmounts :
      ∀ path name, update.amount path name = 0 := by
    intro path name
    rcases path with _ | ⟨first, rest⟩
    · rfl
    · rw [amount, leaf_cons]
      by_cases hFirst : "in" = first
      · have hChild : update.child first = inner := by
          simp [child, map?, update, Entries.find?, hFirst]
        rw [hChild]
        exact hInner rest name
      · have hChild : update.child first = empty := by
          simp [child, map?, update, Entries.find?, hFirst]
        rw [hChild]
        exact hNothing rest name
  exact
    ⟨⟨hWell, hMap, hAmounts⟩,
      apply_again_of_amount_zero hWell hMap hAmounts⟩

end Update

end CrdtDoc
