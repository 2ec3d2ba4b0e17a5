import CrdtDoc.Proofs.PointwiseUpdate
import CrdtDoc.Proofs.WritesAtPaths
import Mathlib.Algebra.Ring.Int.Defs

/-
  This file shows what an update holds after any row of
  writes at their paths, and which write of a row cannot be
  made.

  Under each path and name, the last register and the last
  flag are held, the sum of all increments, each member
  added once in the order of first additions, and all
  members removed.  A write is refused if its name is used
  as a register and as a set with added members, or if it
  takes the sum of a counter out of range.

  Key definitions include:
    * `Update.writesAt`
    * `Update.Entry.Records`
    * `Update.Records`
    * `Write.Refused`
    * `Update.AreAccepted`
    * `Update.StopsAt`

  Main declarations:
    * `Update.Records.writeAt`
    * `Update.Records.writeAt_eq_error_iff`
    * `Update.records_every_write`
-/

namespace CrdtDoc

------------------------------------------------------------
-- Written Values
------------------------------------------------------------

namespace Write

/- The bytes that are written to a register. -/
def value? : Write → Option Bytes
  | .register _ value => some value
  | _ => none

/- The number that is added to a counter. -/
def amount? : Write → Option Int
  | .increment _ amount => some amount.toInt
  | _ => none

/- The member that is added to a set. -/
def added? : Write → Option Bytes
  | .add _ member => some member
  | _ => none

/- The member that is removed from a set. -/
def removed? : Write → Option Bytes
  | .remove _ member => some member
  | _ => none

/- The state that is written to a flag. -/
def state? : Write → Option Bool
  | .flag _ state => some state
  | _ => none

end Write

namespace Update

/- The writes that are made to a name at a path. -/
def writesAt
    (writes : List (List String × Write))
    (path : List String)
    (name : String) : List Write :=
  (writes.filter fun entry =>
    entry.1 = path ∧ entry.2.name = name).map Prod.snd

/- The sum of what is added to a counter. -/
def total
    (writes : List Write) : Int :=
  (writes.filterMap Write.amount?).sum

/- What is made of some items, nothing if there are none. -/
def ifAny
    {α β : Type}
    (items : List α)
    (made : β) : Option β :=
  if items = [] then none else some made

/- An entry holds what some writes in their order make. -/
structure Entry.Records
    (entry : Entry)
    (writes : List Write) : Prop where
  register :
    entry.register = (writes.filterMap Write.value?).getLast?
  counter :
    entry.counter.map Integer.toInt =
      ifAny (writes.filterMap Write.amount?) (total writes)
  adds :
    entry.adds =
      ifAny (writes.filterMap Write.added?)
        (writes.filterMap Write.added?).eraseDups
  removes :
    entry.removes =
      ifAny (writes.filterMap Write.removed?)
        (writes.filterMap Write.removed?)
  flag :
    entry.flag = (writes.filterMap Write.state?).getLast?

/-
  An update holds what writes at their paths make.  A map is
  there if it is on the way of a write, or was made by one.
-/
structure Records
    (tree : Update)
    (writes : List (List String × Write)) : Prop where
  wellFormed : tree.WellFormed
  leaf :
    ∀ path name,
      (tree.leaf path name).Records (writesAt writes path name)
  maps :
    ∀ path,
      (tree.at? path).isSome ↔
        path = [] ∨
        ∃ entry ∈ writes,
          path <+: entry.1 ∨
          ∃ name,
            entry.2 = .map name ∧ path = entry.1 ++ [name]
  apart :
    ∀ path name,
      ¬((tree.leaf path name).register.isSome ∧
        (tree.leaf path name).adds.isSome)

end Update

------------------------------------------------------------
-- Refused Writes
------------------------------------------------------------

/- Why a write at a path is refused after other writes. -/
def Write.Refused
    (before : List (List String × Write))
    (path : List String) : Write → Abort → Prop
  | .register name _, reason =>
      (∃ member, (path, .add name member) ∈ before) ∧
      reason = .nameOfSet name
  | .increment name amount, reason =>
      ¬IntType.i64.Holds
        (Update.total (Update.writesAt before path name) +
          amount.toInt) ∧
      reason = .overflow
  | .add name _, reason =>
      (∃ value, (path, .register name value) ∈ before) ∧
      reason = .nameOfRegister name
  | .remove _ _, _ | .flag _ _, _ | .map _, _ => False

namespace Update

/- No write is refused after the writes in front of it. -/
def AreAccepted
    (writes : List (List String × Write)) : Prop :=
  ∀ front path write,
    front ++ [(path, write)] <+: writes →
      ∀ reason, ¬write.Refused front path reason

/- The first write that is refused, and why it is. -/
def StopsAt
    (writes : List (List String × Write))
    (reason : Abort) : Prop :=
  ∃ front path write,
    front ++ [(path, write)] <+: writes ∧
    AreAccepted front ∧
    write.Refused front path reason

variable {writes before : List (List String × Write)}
variable {path : List String} {write : Write} {reason : Abort}

/- Writes are accepted if the last one is as well. -/
theorem areAccepted_concat_iff :
    AreAccepted (writes ++ [(path, write)]) ↔
      AreAccepted writes ∧
      ∀ reason, ¬write.Refused writes path reason := by
  constructor
  · intro hAll
    refine ⟨?_, hAll writes path write (List.prefix_refl _)⟩
    intro front at' other hPrefix
    exact hAll front at' other
      (hPrefix.trans (List.prefix_append _ _))
  · rintro ⟨hFront, hLast⟩ front at' other hPrefix
    rcases List.prefix_concat_iff.mp hPrefix with hEq | hWithin
    · rcases List.append_inj' hEq rfl with ⟨rfl, hOther⟩
      cases hOther
      exact hLast
    · exact hFront front at' other hWithin

/- Writes stop at the last one if at none in front of it. -/
theorem stopsAt_concat_iff :
    StopsAt (writes ++ [(path, write)]) reason ↔
      StopsAt writes reason ∨
      AreAccepted writes ∧
        write.Refused writes path reason := by
  constructor
  · rintro ⟨front, at', other, hPrefix, hFront, hRefused⟩
    rcases List.prefix_concat_iff.mp hPrefix with hEq | hWithin
    · rcases List.append_inj' hEq rfl with ⟨rfl, hOther⟩
      cases hOther
      exact Or.inr ⟨hFront, hRefused⟩
    · exact Or.inl
        ⟨front, at', other, hWithin, hFront, hRefused⟩
  · rintro (⟨front, at', other, hPrefix, hRest⟩ | hLast)
    · exact ⟨front, at', other,
        hPrefix.trans (List.prefix_append _ _), hRest⟩
    · exact ⟨writes, path, write, List.prefix_refl _, hLast⟩

------------------------------------------------------------
-- Writes of an Entry
------------------------------------------------------------

/- The writes made to a name at a path are among all. -/
theorem mem_writesAt_iff
    {name : String} :
    write ∈ writesAt writes path name ↔
      (path, write) ∈ writes ∧ write.name = name := by
  simp [writesAt]

/- A further write is the last one at its path and name. -/
theorem writesAt_concat_self :
    writesAt (writes ++ [(path, write)]) path write.name =
      writesAt writes path write.name ++ [write] := by
  simp [writesAt]

/- A further write is none of those made elsewhere. -/
theorem writesAt_concat_of_not
    {other : List String}
    {name : String}
    (hNot : ¬(other = path ∧ name = write.name)) :
    writesAt (writes ++ [(path, write)]) other name =
      writesAt writes other name := by
  have hNot : ¬(path = other ∧ write.name = name) :=
    fun h => hNot ⟨h.1.symm, h.2.symm⟩
  simp [writesAt, hNot]

/- Something is made if and only if there are items. -/
theorem isSome_ifAny_iff
    {α β : Type}
    {items : List α}
    {made : β} :
    (ifAny items made).isSome ↔ items ≠ [] := by
  unfold ifAny
  split <;> simp_all

/- What is made of no items can be used for nothing. -/
theorem getD_ifAny
    {α β : Type}
    {items : List α}
    {made other : β}
    (hNone : items = [] → made = other) :
    (ifAny items made).getD other = made := by
  unfold ifAny
  split
  · rename_i hItems
    exact (hNone hItems).symm
  · rfl

/- One member more is added if it was not added before. -/
theorem withMember_eraseDups
    (members : List Bytes)
    (member : Bytes) :
    Entry.withMember members.eraseDups member =
      (members ++ [member]).eraseDups := by
  unfold Entry.withMember
  rw [List.eraseDups_append]
  by_cases hMember : member ∈ members <;>
    simp [List.removeAll, List.eraseDups_cons, hMember]

namespace Entry

variable {entry later : Entry} {made : List Write}

/- Before any write, nothing is held. -/
theorem records_none : none.Records [] :=
  ⟨rfl, rfl, rfl, rfl, rfl⟩

/- The amount of an entry is the sum of all increments. -/
theorem Records.amount_eq
    (hRecords : entry.Records made) :
    entry.amount = total made := by
  have hCounter := hRecords.counter
  have hTotal :
      (entry.counter.map Integer.toInt).getD 0 =
        total made := by
    rw [hCounter]
    apply getD_ifAny
    intro hNone
    rw [total, hNone, List.sum_nil]
  rw [← hTotal, Entry.amount]
  cases entry.counter <;> rfl

/- A further write is the last one that an entry holds. -/
theorem Records.concat
    (hRecords : entry.Records made)
    (hWrite : entry.write write = .ok later) :
    later.withoutMap.Records (made ++ [write]) where
  register := by
    rw [List.filterMap_append, List.getLast?_append,
      ← hRecords.register]
    cases writes_of_write hWrite <;> rfl
  counter := by
    rw [total, List.filterMap_append]
    cases writes_of_write hWrite with
    | increment name amount sum hSum =>
        have hValue := Integer.ofInt?_eq_some_iff.mp hSum
        have hBefore :
            (entry.counter.getD .zero).toInt =
              (made.filterMap Write.amount?).sum :=
          hRecords.amount_eq
        change some sum.toInt =
          ifAny (_ ++ [amount.toInt]) (_ ++ [amount.toInt]).sum
        rw [hValue, hBefore, List.sum_append,
          List.sum_singleton, ifAny,
          if_neg (List.concat_ne_nil _ _)]
    | _ =>
        change entry.counter.map _ =
          ifAny (_ ++ []) (_ ++ []).sum
        rw [List.append_nil]
        exact hRecords.counter
  adds := by
    rw [List.filterMap_append]
    cases writes_of_write hWrite with
    | add name member hRegister =>
        have hBefore :
            entry.adds.getD [] =
              (made.filterMap Write.added?).eraseDups := by
          rw [hRecords.adds]
          apply getD_ifAny
          intro hNone
          rw [hNone, List.eraseDups_nil]
        change some (withMember (entry.adds.getD []) _) =
          ifAny (_ ++ [member]) (_ ++ [member]).eraseDups
        rw [hBefore, withMember_eraseDups, ifAny,
          if_neg (List.concat_ne_nil _ _)]
    | _ =>
        change entry.adds = ifAny (_ ++ []) (_ ++ []).eraseDups
        rw [List.append_nil]
        exact hRecords.adds
  removes := by
    rw [List.filterMap_append]
    cases writes_of_write hWrite with
    | remove name member =>
        have hBefore :
            entry.removes.getD [] =
              made.filterMap Write.removed? := by
          rw [hRecords.removes]
          exact getD_ifAny id
        change some (entry.removes.getD [] ++ _) =
          ifAny (_ ++ [member]) (_ ++ [member])
        rw [hBefore, ifAny, if_neg (List.concat_ne_nil _ _)]
    | _ =>
        change entry.removes = ifAny (_ ++ []) (_ ++ [])
        rw [List.append_nil]
        exact hRecords.removes
  flag := by
    rw [List.filterMap_append, List.getLast?_append,
      ← hRecords.flag]
    cases writes_of_write hWrite <;> rfl

/- A write leaves a register and a set apart. -/
theorem apart_of_write
    (hApart : ¬(entry.register.isSome ∧ entry.adds.isSome))
    (hWrite : entry.write write = .ok later) :
    ¬(later.register.isSome ∧ later.adds.isSome) := by
  cases writes_of_write hWrite with
  | register name value hAdds => exact fun h => hAdds h.2
  | add name member hRegister => exact fun h => hRegister h.1
  | _ => exact hApart

/- Why a write to an entry is refused. -/
def Refuses
    (entry : Entry) : Write → Abort → Prop
  | .register name _, reason =>
      entry.adds.isSome ∧ reason = .nameOfSet name
  | .increment _ amount, reason =>
      (entry.counter.getD .zero).add? amount = .none ∧
      reason = .overflow
  | .add name _, reason =>
      entry.register.isSome ∧ reason = .nameOfRegister name
  | .remove _ _, _ | .flag _ _, _ | .map _, _ => False

/- A write to an entry fails if and only if it is refused. -/
theorem write_eq_error_iff :
    entry.write write = .error reason ↔
      entry.Refuses write reason := by
  cases write with
  | register name value =>
      rw [Entry.write, Refuses]
      by_cases hAdds : entry.adds.isSome
      · simp [hAdds, eq_comm]
      · simp [hAdds]
  | increment name amount =>
      rw [Entry.write, Refuses]
      cases (entry.counter.getD .zero).add? amount with
      | none => simp [eq_comm]
      | some sum => simp
  | add name member =>
      rw [Entry.write, Refuses]
      by_cases hRegister : entry.register.isSome
      · simp [hRegister, eq_comm]
      · simp [hRegister]
  | remove name member => simp [Entry.write, Refuses]
  | flag name state => simp [Entry.write, Refuses]
  | map name => simp [Entry.write, Refuses]

/- What an entry refuses does not depend on its map. -/
theorem refuses_withoutMap_iff :
    entry.withoutMap.Refuses write reason ↔
      entry.Refuses write reason := by
  cases write <;> exact Iff.rfl

end Entry

/-
  A write at a path fails if and only if the entry of its
  name there refuses it.
-/
theorem writeAt_eq_error_iff
    {update : Update} :
    update.writeAt path write = .error reason ↔
      (update.leaf path write.name).Refuses write reason := by
  induction path generalizing update with
  | nil =>
      have hLeaf :
          (update.leaf [] write.name).Refuses write reason ↔
            (update.entry write.name).write write =
              .error reason :=
        Entry.refuses_withoutMap_iff.trans
          Entry.write_eq_error_iff.symm
      rw [hLeaf]
      constructor
      · intro hWrite
        have hWrite : update.write write = .error reason :=
          hWrite
        cases hEntry :
            (update.entry write.name).write write with
        | ok entry =>
            rcases write_eq_ok hEntry with ⟨after, hAfter, _⟩
            rw [hWrite] at hAfter
            cases hAfter
        | error other =>
            rw [write_eq_error hEntry] at hWrite
            cases hWrite
            rfl
      · exact write_eq_error
  | cons first rest ih =>
      rw [writeAt, modifyAt, bind_eq_error_iff, leaf_cons, ← ih]
      constructor
      · rintro (hInner | ⟨_, _, hDone⟩)
        · exact hInner
        · cases hDone
      · exact Or.inl

------------------------------------------------------------
-- Rows of Writes
------------------------------------------------------------

/-
  Something of a kind is written to a name at a path if and
  only if a write that makes it is among all.
-/
theorem filterMap_writesAt_ne_nil_iff
    {α : Type}
    {name : String}
    {part? : Write → Option α}
    {make : α → Write}
    (hMake :
      ∀ write value,
        write.name = name ∧ part? write = some value ↔
          write = make value) :
    (writesAt before path name).filterMap part? ≠ [] ↔
      ∃ value, (path, make value) ∈ before := by
  rw [← List.isEmpty_eq_false_iff,
    List.isEmpty_eq_false_iff_exists_mem]
  simp only [List.mem_filterMap, mem_writesAt_iff, and_assoc,
    hMake, exists_eq_right]

/- A map that a write makes is on its way, or its own. -/
theorem isPrefix_mapPath_iff
    {other : List String} :
    other <+: write.mapPath path ↔
      other <+: path ∨
      ∃ name, write = .map name ∧ other = path ++ [name] := by
  cases write with
  | map name =>
      rw [Write.mapPath, List.prefix_concat_iff, or_comm]
      simp
  | _ => simp [Write.mapPath]

namespace Records

variable {tree after : Update}

/- Before any write, nothing is held and only the root is. -/
theorem start : empty.Records [] where
  wellFormed := wellFormed_empty
  leaf path name := by
    rw [leaf_empty]
    exact Entry.records_none
  maps path := by
    cases path with
    | nil => exact iff_of_true rfl (Or.inl rfl)
    | cons first rest =>
        simp [at?, map?, empty, Entries.find?]
  apart path name := by
    rw [leaf_empty]
    exact fun hBoth => Bool.noConfusion hBoth.1

/- A write at a path fails if and only if it is refused. -/
theorem writeAt_eq_error_iff
    (hRecords : tree.Records before) :
    tree.writeAt path write = .error reason ↔
      write.Refused before path reason := by
  rw [Update.writeAt_eq_error_iff]
  cases write with
  | register name value =>
      have hLeaf := (hRecords.leaf path name).adds
      refine and_congr_left' ?_
      rw [Write.name, hLeaf, isSome_ifAny_iff]
      apply filterMap_writesAt_ne_nil_iff
      intro write member
      cases write <;> simp [Write.name, Write.added?]
  | increment name amount =>
      have hAmount := (hRecords.leaf path name).amount_eq
      refine and_congr_left' ?_
      rw [Integer.add?, Integer.ofInt?_eq_none_iff, ← hAmount]
      exact Iff.rfl
  | add name member =>
      have hLeaf := (hRecords.leaf path name).register
      refine and_congr_left' ?_
      rw [Write.name, hLeaf, List.getLast?_isSome]
      apply filterMap_writesAt_ne_nil_iff
      intro write value
      cases write <;> simp [Write.name, Write.value?]
  | remove name member => exact Iff.rfl
  | flag name state => exact Iff.rfl
  | map name => exact Iff.rfl

/- What is held after a further write at a path. -/
theorem writeAt
    (hRecords : tree.Records before)
    (hWrite : tree.writeAt path write = .ok after) :
    after.Records (before ++ [(path, write)]) := by
  rcases leaf_writeAt hWrite with ⟨entry, hEntry, hLeaf⟩
  refine ⟨hRecords.wellFormed.writeAt hWrite, ?_, ?_, ?_⟩
  · intro other name
    rw [hLeaf]
    split
    · rename_i hAt
      rcases hAt with ⟨rfl, rfl⟩
      rw [writesAt_concat_self]
      exact (hRecords.leaf _ _).concat hEntry
    · rename_i hNot
      rw [writesAt_concat_of_not hNot]
      exact hRecords.leaf other name
  · intro other
    rw [isSome_at?_writeAt hWrite, hRecords.maps, or_assoc,
      isPrefix_mapPath_iff]
    simp only [List.mem_append, List.mem_singleton,
      or_and_right, exists_or, exists_eq_left]
  · intro other name
    rw [hLeaf]
    split
    · have hApart := hRecords.apart path write.name
      have hLater := Entry.apart_of_write hApart hEntry
      exact hLater
    · exact hRecords.apart other name

end Records

/- All writes were made and the last one was not, or not all. -/
theorem writeAll_concat_eq_error_iff
    {update : Update} :
    update.writeAll (writes ++ [(path, write)]) =
        .error reason ↔
      update.writeAll writes = .error reason ∨
      ∃ middle,
        update.writeAll writes = .ok middle ∧
        middle.writeAt path write = .error reason := by
  rw [writeAll, List.foldlM_append, bind_eq_error_iff]
  simp only [List.foldlM_cons, List.foldlM_nil, bind_pure]
  rfl

/- An update holds what the writes made that it is made of. -/
theorem records_of_writeAll
    {tree : Update}
    (hWrites : empty.writeAll writes = .ok tree) :
    tree.Records writes := by
  induction writes using List.reverseRecOn
      generalizing tree with
  | nil =>
      cases hWrites
      exact .start
  | append_singleton writes last ih =>
      rcases writeAll_concat_eq_ok_iff.mp hWrites
        with ⟨middle, hMiddle, hLast⟩
      exact (ih hMiddle).writeAt hLast

/- Writes can be made if and only if all are accepted. -/
theorem exists_writeAll_iff :
    (∃ tree, empty.writeAll writes = .ok tree) ↔
      AreAccepted writes := by
  induction writes using List.reverseRecOn with
  | nil =>
      refine iff_of_true ⟨empty, rfl⟩ ?_
      intro front path write hPrefix
      have hNil := List.prefix_nil.mp hPrefix
      exact (List.concat_ne_nil _ _ hNil).elim
  | append_singleton writes last ih =>
      rcases last with ⟨path, write⟩
      rw [areAccepted_concat_iff, ← ih]
      constructor
      · rintro ⟨tree, hTree⟩
        rcases writeAll_concat_eq_ok_iff.mp hTree
          with ⟨middle, hMiddle, hLast⟩
        refine ⟨⟨middle, hMiddle⟩, fun reason hRefused => ?_⟩
        have hError :=
          (records_of_writeAll hMiddle).writeAt_eq_error_iff.mpr
            hRefused
        rw [hLast] at hError
        cases hError
      · rintro ⟨⟨middle, hMiddle⟩, hLast⟩
        cases hWrite : middle.writeAt path write with
        | ok tree =>
            exact ⟨tree, writeAll_concat_eq_ok_iff.mpr
              ⟨middle, hMiddle, hWrite⟩⟩
        | error reason =>
            have hRecords := records_of_writeAll hMiddle
            exact (hLast reason
              (hRecords.writeAt_eq_error_iff.mp hWrite)).elim

/- Writes fail at the first one that is refused. -/
theorem writeAll_eq_error_iff :
    empty.writeAll writes = .error reason ↔
      StopsAt writes reason := by
  induction writes using List.reverseRecOn with
  | nil =>
      refine iff_of_false nofun ?_
      rintro ⟨front, path, write, hPrefix, _⟩
      have hNil := List.prefix_nil.mp hPrefix
      exact (List.concat_ne_nil _ _ hNil).elim
  | append_singleton writes last ih =>
      rcases last with ⟨path, write⟩
      rw [writeAll_concat_eq_error_iff, stopsAt_concat_iff, ih,
        ← exists_writeAll_iff]
      refine or_congr_right ?_
      constructor
      · rintro ⟨middle, hMiddle, hLast⟩
        have hRecords := records_of_writeAll hMiddle
        exact ⟨⟨middle, hMiddle⟩,
          hRecords.writeAt_eq_error_iff.mp hLast⟩
      · rintro ⟨⟨middle, hMiddle⟩, hRefused⟩
        have hRecords := records_of_writeAll hMiddle
        exact ⟨middle, hMiddle,
          hRecords.writeAt_eq_error_iff.mpr hRefused⟩

/-
  A row of writes fails at the first write that is refused
  after those in front of it, and only there.  If none is,
  the update holds what the writes make at every path and
  under every name.
-/
theorem records_every_write
    (writes : List (List String × Write)) :
    (∀ reason,
      empty.writeAll writes = .error reason ↔
        StopsAt writes reason) ∧
    ((∃ tree, empty.writeAll writes = .ok tree) ↔
      AreAccepted writes) ∧
    ∀ tree,
      empty.writeAll writes = .ok tree →
        tree.Records writes :=
  ⟨fun _ => writeAll_eq_error_iff, exists_writeAll_iff,
    fun _ => records_of_writeAll⟩

/- A name is that of a set in one map and not in another. -/
example :
    empty.writeAll
        [(["a"], .add "t" [1]), ([], .register "t" [2]),
          (["a"], .register "t" [2]), ([], .map "t")] =
      .error (.nameOfSet "t") := by
  rfl

end Update

end CrdtDoc
