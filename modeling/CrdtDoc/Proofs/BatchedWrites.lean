import CrdtDoc.Proofs.DocumentOrder
import CrdtDoc.Proofs.FilteredUpdate
import CrdtDoc.Proofs.StoreHistory
import CrdtDoc.Proofs.WritesAtPaths

/-
  This file shows that an update of many writes means its
  writes in their order: it makes of a document what the
  writes make of it one after the other, each as an update
  of its own.  As an update removes members before it adds
  any, no member may be removed after it was added.

  Key definitions include:
    * `CrdtMap.writeEach`
    * `Update.KeepsAdded`

  Main declarations:
    * `Update.Entry.Makes.write`
    * `Update.apply_writeAt`
    * `Update.exists_apply_writeAll`
-/

namespace CrdtDoc

------------------------------------------------------------
-- Members
------------------------------------------------------------

namespace Members

variable {members : Members}

/- Members are removed together or one after the other. -/
theorem remove_append
    (members : Members)
    (removed more : List Bytes) :
    members.remove (removed ++ more) =
      (members.remove removed).remove more := by
  unfold remove
  rw [List.filter_filter]
  congr 1
  funext member
  simp [Bool.and_comm]

/- A member is removed alike before others are added. -/
theorem remove_insertAll
    (hMembers : members.Ascending)
    {added : List Bytes}
    {member : Bytes}
    (hAdded : member ∉ added) :
    (members.insertAll added).remove [member] =
      (members.remove [member]).insertAll added := by
  refine Ascending.ext
    ((ascending_insertAll hMembers added).remove _)
    (ascending_insertAll (hMembers.remove _) added) ?_
  intro other
  have hOther : other ∈ added → other ≠ member :=
    fun hMem hEq => hAdded (hEq ▸ hMem)
  simp only [remove, List.mem_filter, mem_insertAll,
    List.contains_cons, List.contains_nil, Bool.or_false,
    Bool.not_eq_true', beq_eq_false_iff_ne]
  constructor
  · rintro ⟨hOld | hNew, hNe⟩
    · exact Or.inl ⟨hOld, hNe⟩
    · exact Or.inr hNew
  · rintro (⟨hOld, hNe⟩ | hNew)
    · exact ⟨Or.inl hOld, hNe⟩
    · exact ⟨Or.inr hNew, hOther hNew⟩

/- Members are added one after the other, each once. -/
theorem insertAll_withMember
    (hMembers : members.Ascending)
    (added : List Bytes)
    (member : Bytes) :
    members.insertAll
        (Update.Entry.withMember added member) =
      (members.insertAll added).insert member := by
  unfold Update.Entry.withMember
  split
  · rename_i hContains
    have hMem : member ∈ members.insertAll added :=
      mem_insertAll.mpr
        (Or.inr (List.contains_iff_mem.mp hContains))
    exact (insert_of_mem
      (ascending_insertAll hMembers added) hMem).symm
  · exact List.foldl_append

end Members

------------------------------------------------------------
-- Single Entries
------------------------------------------------------------

namespace Update

/- An amount is added at once or in two parts. -/
theorem sumOf_add?
    {first : Option (Integer .i64)}
    {amount total sum : Integer .i64}
    {before middle : Option (Integer .i64)}
    (hTotal : (first.getD .zero).add? amount = some total)
    (hMiddle :
      first.elim (middle = before) fun first =>
        ∃ sum,
          sumOf first before = .ok sum ∧ middle = some sum)
    (hSum : sumOf amount middle = .ok sum) :
    sumOf total before = .ok sum := by
  rw [sumOf_eq_ok_iff_toInt] at hSum ⊢
  have hAdded := Integer.ofInt?_eq_some_iff.mp hTotal
  cases first with
  | none =>
      rw [show middle = before from hMiddle] at hSum
      rw [hSum, hAdded]
      exact congrArg (_ + ·) (Int.zero_add _).symm
  | some first =>
      rcases hMiddle with ⟨middle, hFirst, rfl⟩
      rw [sumOf_eq_ok_iff_toInt] at hFirst
      rw [hSum, hAdded, Option.getD_some, Option.getD_some,
        hFirst, Int.add_assoc]

namespace Entry

variable {entry later own : Entry}
variable {before middle after : CrdtMap.Entry}

/- Members that are kept of a set are in order. -/
theorem ascending_kept
    {set : Option Members}
    (hSet : Members.Ascending (set.getD []))
    (removed : List Bytes) :
    Members.Ascending
      ((set.map (Members.remove · removed)).getD []) := by
  cases set with
  | none => exact hSet
  | some members => exact Members.Ascending.remove hSet removed

/- A member to be added is added after all others. -/
theorem newSet_withMember
    (entry : Entry)
    {set : Option Members}
    (hSet : Members.Ascending (set.getD []))
    (member : Bytes) :
    newSet
        { entry with
          adds :=
            some (withMember (entry.adds.getD []) member) }
        set =
      some (((entry.newSet set).getD []).insert member) := by
  have hKept := ascending_kept hSet (entry.removes.getD [])
  rw [newSet, newSet]
  cases entry.adds with
  | none => rfl
  | some added =>
      exact congrArg some
        (Members.insertAll_withMember hKept added member)

/- A member to be removed is removed after all others. -/
theorem newSet_append_removes
    {set : Option Members}
    (hSet : Members.Ascending (set.getD []))
    {member : Bytes}
    (hMember : member ∉ entry.adds.getD []) :
    newSet
        { entry with
          removes :=
            some (entry.removes.getD [] ++ [member]) }
        set =
      (entry.newSet set).map (Members.remove · [member]) := by
  have hKept := ascending_kept hSet (entry.removes.getD [])
  have hRemoved :
      set.map
          (Members.remove ·
            (entry.removes.getD [] ++ [member])) =
        (set.map
          (Members.remove · (entry.removes.getD []))).map
            (Members.remove · [member]) := by
    rw [Option.map_map]
    exact congrArg (set.map ·)
      (funext fun members => Members.remove_append members _ _)
  rw [newSet, newSet, Option.getD_some, hRemoved]
  generalize set.map _ = kept at hKept ⊢
  generalize entry.adds = adds at hMember ⊢
  cases adds with
  | none => rfl
  | some added =>
      have hGetD :
          (kept.map (Members.remove · [member])).getD [] =
            (kept.getD []).remove [member] := by
        cases kept <;> rfl
      rw [Option.elim_some, Option.elim_some, hGetD]
      exact congrArg some
        (Members.remove_insertAll hKept hMember).symm

/-
  A write after others to the same entry makes of a document
  what it makes on its own of what the others make.
-/
theorem makes_of_write
    {write : Write}
    (hSet : Members.Ascending (before.set.getD []))
    (hMap : entry.map = .none)
    (hLater : entry.write write = .ok later)
    (hOwn : Entry.none.write write = .ok own)
    (hKept :
      ∀ member,
        write = .remove write.name member →
          member ∉ entry.adds.getD [])
    (hMiddle : entry.Makes before middle)
    (hAfter : own.withoutMap.Makes middle after) :
    later.withoutMap.Makes before after := by
  have hNewMap : after.map = before.map := by
    have hOldMap := hMiddle.map
    rw [hMap] at hOldMap
    exact hAfter.map.trans hOldMap
  cases writes_of_write hLater with
  | register name value hAdds =>
      cases hOwn
      have hCounter := hAfter.counter_eq rfl
      have hKeptSet := hAfter.set_eq rfl rfl
      exact
        { register := hAfter.register
          counter := hCounter ▸ hMiddle.counter
          set := hKeptSet.trans hMiddle.set
          flag := hAfter.flag.trans hMiddle.flag
          map := hNewMap }
  | increment name amount total hTotal =>
      rw [Entry.write, Entry.none, Option.getD_none,
        Integer.zero_add?] at hOwn
      cases hOwn
      rcases hAfter.counter with ⟨sum, hSum, hCounter⟩
      have hKeptSet := hAfter.set_eq rfl rfl
      have hAll : sumOf total before.counter = .ok sum :=
        sumOf_add? hTotal hMiddle.counter hSum
      exact
        { register := hAfter.register.trans hMiddle.register
          counter := ⟨sum, hAll, hCounter⟩
          set := hKeptSet.trans hMiddle.set
          flag := hAfter.flag.trans hMiddle.flag
          map := hNewMap }
  | add name member hRegister =>
      cases hOwn
      have hCounter := hAfter.counter_eq rfl
      have hAdded :
          after.set =
            some ((middle.set.getD []).insert member) := by
        refine hAfter.set.trans ?_
        cases middle.set with
        | none => rfl
        | some members =>
            exact congrArg
              (fun kept => some (Members.insert kept member))
              (Members.remove_nil members)
      have hNew := entry.newSet_withMember hSet member
      rw [← hMiddle.set] at hNew
      exact
        { register := hAfter.register.trans hMiddle.register
          counter := hCounter ▸ hMiddle.counter
          set := hAdded.trans hNew.symm
          flag := hAfter.flag.trans hMiddle.flag
          map := hNewMap }
  | remove name member =>
      cases hOwn
      have hCounter := hAfter.counter_eq rfl
      have hNew :=
        newSet_append_removes hSet (hKept member rfl)
      rw [← hMiddle.set] at hNew
      exact
        { register := hAfter.register.trans hMiddle.register
          counter := hCounter ▸ hMiddle.counter
          set := hAfter.set.trans hNew.symm
          flag := hAfter.flag.trans hMiddle.flag
          map := hNewMap }
  | flag name state =>
      cases hOwn
      have hCounter := hAfter.counter_eq rfl
      have hKeptSet := hAfter.set_eq rfl rfl
      exact
        { register := hAfter.register.trans hMiddle.register
          counter := hCounter ▸ hMiddle.counter
          set := hKeptSet.trans hMiddle.set
          flag := hAfter.flag
          map := hNewMap }
  | map name =>
      cases hOwn
      rw [hAfter.eq_of_none]
      rcases entry with ⟨_, _, _, _, _, _⟩
      cases hMap
      exact hMiddle

end Entry

------------------------------------------------------------
-- Documents
------------------------------------------------------------

variable {update later own : Update}
variable {map middle after : CrdtMap}

/-
  A write at a path after others makes of a document what it
  makes on its own of what the others make.
-/
theorem apply_writeAt
    {path : List String}
    {write : Write}
    (hUpdate : update.WellFormed)
    (hMap : map.WellFormed)
    (hLater : update.writeAt path write = .ok later)
    (hOwn : empty.writeAt path write = .ok own)
    (hKept :
      ∀ member,
        write = .remove write.name member →
          member ∉
            (update.leaf path write.name).adds.getD [])
    (hMiddle : update.apply map = .ok middle)
    (hAfter : own.apply middle = .ok after) :
    later.apply map = .ok after := by
  have hOwnWell : own.WellFormed :=
    wellFormed_empty.writeAt hOwn
  have hOrdered : after.WellFormed :=
    wellFormed_of_apply own
      (wellFormed_of_apply update hMap hMiddle) hAfter
  rw [apply_eq_ok_iff (hUpdate.writeAt hLater) hMap hOrdered]
  -- Both are seen at every path and name: the write counts
  -- at its own, and at all others nothing is new.
  constructor
  · intro other name
    have hFirst :=
      makes_leaf_of_apply hUpdate hMiddle other name
    have hSecond :=
      makes_leaf_of_apply hOwnWell hAfter other name
    rcases leaf_writeAt hLater with ⟨entry, hEntry, hLeaf⟩
    rcases leaf_writeAt hOwn with ⟨single, hSingle, hOwnLeaf⟩
    rw [leaf_empty] at hSingle
    rw [hOwnLeaf] at hSecond
    rw [hLeaf]
    by_cases hHere : other = path ∧ name = write.name
    · rw [if_pos hHere] at hSecond ⊢
      rcases hHere with ⟨rfl, rfl⟩
      exact Entry.makes_of_write
        (ascending_leaf hMap other write.name) rfl hEntry
        hSingle hKept hFirst hSecond
    · rw [if_neg hHere, leaf_empty] at hSecond
      rw [if_neg hHere, hSecond.eq_of_none]
      exact hFirst
  · intro other
    have hRoot :
        (empty.at? other).isSome →
          (update.at? other).isSome := by
      intro hSome
      cases other with
      | nil => rfl
      | cons first rest => cases hSome
    rw [isSome_at?_of_apply hOwnWell hAfter,
      isSome_at?_of_apply hUpdate hMiddle,
      isSome_at?_writeAt hOwn, isSome_at?_writeAt hLater]
    constructor
    · rintro ((hOld | hMade) | hEmpty | hPath)
      · exact Or.inl hOld
      · exact Or.inr (Or.inl hMade)
      · exact Or.inr (Or.inl (hRoot hEmpty))
      · exact Or.inr (Or.inr hPath)
    · rintro (hOld | hMade | hPath)
      · exact Or.inl (Or.inl hOld)
      · exact Or.inl (Or.inr hMade)
      · exact Or.inr (Or.inr hPath)

end Update

------------------------------------------------------------
-- Rows of Writes
------------------------------------------------------------

/-
  Writes made to a document one after the other, each as an
  update of its own.
-/
def CrdtMap.writeEach
    (map : CrdtMap)
    (writes : List (List String × Write)) :
    Except Abort CrdtMap :=
  writes.foldlM
    (fun map (path, write) => do
      let update ← Update.empty.writeAt path write
      (Filter.all.apply update).apply map)
    map

/- A write on its own can always be made to nothing. -/
theorem Update.exists_writeAt_empty
    (path : List String)
    (write : Write) :
    ∃ own, empty.writeAt path write = .ok own := by
  have hEntry :
      ∃ entry,
        (empty.entry write.name).write write = .ok entry := by
    cases write with
    | increment name amount =>
        refine ⟨{ Entry.none with counter := some amount }, ?_⟩
        rw [entry_empty, Entry.write, Entry.none,
          Option.getD_none, Integer.zero_add?]
    | _ => exact ⟨_, rfl⟩
  rcases hEntry with ⟨entry, hEntry⟩
  rcases write_eq_ok hEntry with ⟨inner, hInner, _⟩
  refine ⟨inner.within path, ?_⟩
  rw [writeAt, modifyAt_empty, hInner]
  rfl

namespace CrdtMap

variable {writes : List (List String × Write)}

/- Only a sum out of range ends a row of writes. -/
theorem writeEach_eq_error
    {map : CrdtMap}
    {reason : Abort}
    (hError : map.writeEach writes = .error reason) :
    reason = .overflow := by
  induction writes generalizing map with
  | nil => cases hError
  | cons first rest ih =>
      rcases first with ⟨path, write⟩
      rw [writeEach, List.foldlM_cons,
        bind_eq_error_iff] at hError
      rcases hError with hFirst | ⟨middle, _, hRest⟩
      · rcases bind_eq_error_iff.mp hFirst
          with hOwn | ⟨own, _, hApply⟩
        · rcases Update.exists_writeAt_empty path write
            with ⟨own, hMade⟩
          cases hOwn.symm.trans hMade
        · exact Update.apply_eq_error _ hApply
      · exact ih hRest

/- The last of several writes is made after all others. -/
theorem exists_of_writeEach_concat
    {path : List String}
    {write : Write}
    {map after : CrdtMap}
    (hEach :
      map.writeEach (writes ++ [(path, write)]) = .ok after) :
    ∃ middle own,
      map.writeEach writes = .ok middle ∧
      Update.empty.writeAt path write = .ok own ∧
      own.apply middle = .ok after := by
  rw [writeEach, List.foldlM_append, bind_eq_ok_iff] at hEach
  rcases hEach with ⟨middle, hMiddle, hLast⟩
  rw [List.foldlM_cons, bind_eq_ok_iff] at hLast
  rcases hLast with ⟨made, hMade, hDone⟩
  cases hDone
  rcases bind_eq_ok_iff.mp hMade with ⟨own, hOwn, hAfter⟩
  rw [Filter.apply_all] at hAfter
  exact ⟨middle, own, hMiddle, hOwn, hAfter⟩

end CrdtMap

namespace Update

variable {writes : List (List String × Write)}
variable {tree : Update} {map after : CrdtMap}

/- No member is removed from a set after it was added. -/
def KeepsAdded
    (writes : List (List String × Write)) : Prop :=
  writes.Pairwise fun earlier later =>
    ∀ path name member,
      earlier = (path, .add name member) →
        later ≠ (path, .remove name member)

/-
  If writes can be made to a document one after the other,
  so can the update of all of them, to the same effect.
-/
theorem apply_writeAll
    (hMap : map.WellFormed)
    (hTree : empty.writeAll writes = .ok tree)
    (hKeeps : KeepsAdded writes)
    (hEach : map.writeEach writes = .ok after) :
    tree.apply map = .ok after := by
  -- The induction is from the end: the last write meets the
  -- update of all others, and the document they make.
  induction writes using List.reverseRecOn
    generalizing tree after with
  | nil =>
      cases hTree
      cases hEach
      exact empty_apply map
  | append_singleton writes last ih =>
      rcases last with ⟨path, write⟩
      rcases writeAll_concat_eq_ok_iff.mp hTree
        with ⟨earlier, hEarlier, hLast⟩
      rcases CrdtMap.exists_of_writeEach_concat hEach
        with ⟨middle, own, hMiddle, hOwn, hAfter⟩
      rcases List.pairwise_append.mp hKeeps
        with ⟨hKeeps, _, hPairs⟩
      refine apply_writeAt
        (wellFormed_empty.writeAll hEarlier) hMap hLast hOwn
        ?_ (ih hEarlier hKeeps hMiddle) hAfter
      -- What the earlier writes add was added by one of them,
      -- which no later one undoes.
      intro member hRemove hMember
      have hAdded := add_mem_of_writeAll hEarlier hMember
      exact hPairs _ hAdded _ List.mem_cons_self path
        write.name member rfl (congrArg (path, ·) hRemove)

/-
  An update of several writes that can be collected means
  its writes in their order, unless one of these leaves the
  range of its counter.
-/
theorem exists_apply_writeAll
    (hMap : map.WellFormed)
    (hTree : empty.writeAll writes = .ok tree)
    (hKeeps : KeepsAdded writes)
    (hRange : map.writeEach writes ≠ .error .overflow) :
    ∃ after,
      map.writeEach writes = .ok after ∧
      (Filter.all.apply tree).apply map = .ok after := by
  rw [Filter.apply_all]
  cases hEach : map.writeEach writes with
  | error reason =>
      rw [CrdtMap.writeEach_eq_error hEach] at hEach
      exact absurd hEach hRange
  | ok after =>
      exact ⟨after, rfl,
        apply_writeAll hMap hTree hKeeps hEach⟩

/- Two maps of a document are written to in turn. -/
theorem exists_apply_writeAll_turns :
    let two : Integer .i64 := ⟨2, by decide, by decide⟩
    let three : Integer .i64 := ⟨3, by decide, by decide⟩
    let five : Integer .i64 := ⟨5, by decide, by decide⟩
    let writes : List (List String × Write) :=
      [(["in"], .remove "s" [1]), ([], .increment "n" two),
        (["in"], .add "s" [1]), ([], .register "r" [7]),
        (["in"], .add "s" [1]), ([], .increment "n" three),
        ([], .register "r" [8]), (["in"], .map "deep")]
    let inner : Update :=
      { empty with
        adds := [("s", [[1]])]
        removes := [("s", [[1]])]
        maps := [("deep", empty)] }
    let tree : Update :=
      { empty with
        registers := [("r", [8])]
        counters := [("n", five)]
        maps := [("in", inner)] }
    let old : CrdtMap :=
      { CrdtMap.empty with sets := [("s", [[1], [2]])] }
    let map : CrdtMap :=
      { CrdtMap.empty with maps := [("in", old)] }
    (map.WellFormed ∧
      empty.writeAll writes = .ok tree ∧
      KeepsAdded writes ∧
      map.writeEach writes ≠ .error .overflow) ∧
    ∃ after,
      map.writeEach writes = .ok after ∧
      (Filter.all.apply tree).apply map = .ok after := by
  intro two three five writes inner tree old map
  have hMap : map.WellFormed := by
    have hLess : ([1] : Bytes) < [2] := by
      decide
    simp [map, old, CrdtMap.WellFormed,
      CrdtMap.AllWellFormed, CrdtMap.empty,
      Entries.Ascending, Members.Ascending, hLess]
  have hTree : empty.writeAll writes = .ok tree := by
    cbv
  have hKeeps : KeepsAdded writes := by
    simp [writes, KeepsAdded]
  have hRange :
      map.writeEach writes ≠ .error .overflow := by
    have hEach :
        map.writeEach writes =
          .ok
            { CrdtMap.empty with
              registers := [("r", [8])]
              counters := [("n", five)]
              maps :=
                [("in",
                  { old with maps := [("deep", .empty)] })] } := by
      cbv
    rw [hEach]
    intro hStop
    cases hStop
  exact
    ⟨⟨hMap, hTree, hKeeps, hRange⟩,
      exists_apply_writeAll hMap hTree hKeeps hRange⟩

/- A member that is removed after it was added comes back. -/
example :
    let writes : List (List String × Write) :=
      [([], .add "s" [1]), ([], .remove "s" [1])]
    let tree : Update :=
      { empty with
        adds := [("s", [[1]])]
        removes := [("s", [[1]])] }
    empty.writeAll writes = .ok tree ∧
    (Filter.all.apply tree).apply .empty =
      .ok { CrdtMap.empty with sets := [("s", [[1]])] } ∧
    CrdtMap.empty.writeEach writes =
      .ok { CrdtMap.empty with sets := [("s", [])] } :=
  ⟨by cbv, by cbv, by cbv⟩

end Update

end CrdtDoc
