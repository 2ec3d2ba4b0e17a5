import CrdtDoc.Encode
import CrdtDoc.Proofs.ElementMember
import CrdtDoc.Proofs.EntryView

/-
  This file shows what is put into the entry of a name by
  the writes that make up a register, a set, or a slot, if
  there was nothing in it before.

  Key definitions include:
    * `Update.Entry.added`
    * `Slot.written`

  The writes are described by:
    * `Update.exists_writeRegister`
    * `Update.exists_writeMembers`
    * `Update.foldlM_writeElement_eq_ok_iff`
    * `Update.exists_writeSlot`
-/

namespace CrdtDoc

/- What stops a write stops the writing of a document. -/
theorem EncodeFailure.ofAbort_eq_ok_iff
    {α : Type}
    {result : Except Abort α}
    {value : α} :
    EncodeFailure.ofAbort result = .ok value ↔
      result = .ok value := by
  cases result with
  | error reason =>
      constructor <;> intro hResult <;> cases hResult
  | ok found =>
      constructor <;> intro hResult <;> cases hResult <;> rfl

/- What has no member stops the writing of a document. -/
theorem EncodeFailure.ofCodec_eq_ok_iff
    {α : Type}
    {result : Except CodecError α}
    {value : α} :
    EncodeFailure.ofCodec result = .ok value ↔
      result = .ok value := by
  cases result with
  | error reason =>
      constructor <;> intro hResult <;> cases hResult
  | ok found =>
      constructor <;> intro hResult <;> cases hResult <;> rfl

namespace Update

------------------------------------------------------------
-- Members of an Entry
------------------------------------------------------------

namespace Entry

/- The members to be added after additions to nothing. -/
def added
    (members : List Bytes) : Option (List Bytes) :=
  if members = [] then .none
  else some (members.foldl withMember [])

/- The members to be removed after removals from nothing. -/
def removed
    (members : List Bytes) : Option (List Bytes) :=
  if members = [] then .none else some members

/- Nothing is to be added if there are no members. -/
theorem added_eq_none_iff
    {members : List Bytes} :
    added members = .none ↔ members = [] := by
  unfold added
  split
  · rename_i hNil
    exact iff_of_true rfl hNil
  · rename_i hMembers
    exact iff_of_false (Option.some_ne_none _) hMembers

/- One more member is one of the members. -/
theorem mem_withMember
    {members : List Bytes}
    {member other : Bytes} :
    other ∈ withMember members member ↔
      other ∈ members ∨ other = member := by
  unfold withMember
  split
  · rename_i hContains
    have hMem : member ∈ members :=
      List.contains_iff_mem.mp hContains
    constructor
    · exact Or.inl
    · rintro (hOther | hEq)
      · exact hOther
      · exact hEq ▸ hMem
  · rw [List.mem_append, List.mem_singleton]

/- The members added are those that were to be added. -/
theorem mem_foldl_withMember
    {members added : List Bytes}
    {other : Bytes} :
    other ∈ added.foldl withMember members ↔
      other ∈ members ∨ other ∈ added := by
  induction added generalizing members with
  | nil => simp
  | cons member rest ih =>
      rw [List.foldl_cons, ih, mem_withMember, List.mem_cons,
        or_assoc]

/- Additions to an entry without a register are made. -/
theorem foldlM_write_add
    (name : String)
    (members : List Bytes)
    {entry : Entry}
    (hRegister : entry.register = .none) :
    (members.map (Write.add name)).foldlM write entry =
      .ok { entry with
        adds :=
          if members = [] then entry.adds
          else
            some (members.foldl withMember
              (entry.adds.getD [])) } := by
  induction members generalizing entry with
  | nil => rfl
  | cons member rest ih =>
      have hWrite :
          entry.write (.add name member) =
            .ok { entry with
              adds :=
                some (withMember (entry.adds.getD [])
                  member) } := by
        rw [write, hRegister]
        rfl
      rw [List.map_cons, List.foldlM_cons, hWrite]
      refine Eq.trans (ih ?_) ?_
      · exact hRegister
      · by_cases hRest : rest = []
        · subst hRest
          rfl
        · rw [if_neg hRest, if_neg (List.cons_ne_nil _ _)]
          rfl

/- Removals are made. -/
theorem foldlM_write_remove
    (name : String)
    (members : List Bytes)
    (entry : Entry) :
    (members.map (Write.remove name)).foldlM write entry =
      .ok { entry with
        removes :=
          if members = [] then entry.removes
          else some (entry.removes.getD [] ++ members) } := by
  induction members generalizing entry with
  | nil => rfl
  | cons member rest ih =>
      rw [List.map_cons, List.foldlM_cons]
      refine (ih _).trans ?_
      by_cases hRest : rest = []
      · subst hRest
        rfl
      · rw [if_neg hRest, if_neg (List.cons_ne_nil _ _)]
        simp only [Option.getD_some, List.append_assoc,
          List.singleton_append]

end Entry

------------------------------------------------------------
-- Registers and Sets
------------------------------------------------------------

variable {update after : Update} {name : String}

/- A register can be written where there is nothing. -/
theorem exists_writeRegister
    (hEntry : update.entry name = .none)
    (value : Bytes) :
    ∃ after,
      update.writeRegister name value = .ok after ∧
      Replaces name
        { Entry.none with register := some value }
        update after := by
  have hWrite :
      (update.entry name).write (.register name value) =
        .ok { Entry.none with register := some value } := by
    rw [hEntry]
    rfl
  rcases @write_eq_ok update (.register name value) _ hWrite
    with ⟨after, hAfter, hReplaces⟩
  refine ⟨after, ?_, hReplaces⟩
  exact EncodeFailure.ofAbort_eq_ok_iff.mpr hAfter

/- Members can be added where there is nothing. -/
theorem exists_writeMembers
    (hEntry : update.entry name = .none)
    (members : List Bytes) :
    ∃ after,
      (members.map (Write.add name)).foldlM Update.write
        update = .ok after ∧
      Replaces name
        { Entry.none with adds := Entry.added members }
        update after := by
  apply foldlM_write_eq_ok
  · intro write hWrite
    rcases List.mem_map.mp hWrite with ⟨member, _, hEq⟩
    exact hEq ▸ rfl
  · rw [hEntry]
    exact Entry.foldlM_write_add name members rfl

/- Elements are written if each has a member. -/
theorem foldlM_writeElement_eq_ok_iff
    {element : Element}
    {items : List element.Value} :
    items.foldlM
        (fun update item =>
          update.writeElement name element item)
        update = .ok after ↔
      ∃ members,
        items.mapM (element.toMember name) = .ok members ∧
        (members.map (Write.add name)).foldlM Update.write
          update = .ok after := by
  simp only [mapM_eq_ok_iff]
  induction items generalizing update with
  | nil =>
      simp only [List.forall₂_nil_left_iff]
      constructor
      · intro hAfter
        cases hAfter
        exact ⟨[], rfl, rfl⟩
      · rintro ⟨members, hMembers, hAfter⟩
        subst hMembers
        cases hAfter
        rfl
  | cons item rest ih =>
      rw [List.foldlM_cons, bind_eq_ok_iff]
      simp only [List.forall₂_cons_left_iff]
      constructor
      · rintro ⟨middle, hFirst, hRest⟩
        rcases bind_eq_ok_iff.mp hFirst
          with ⟨member, hMember, hMiddle⟩
        rcases ih.mp hRest with ⟨members, hMembers, hAfter⟩
        have hItem :=
          EncodeFailure.ofCodec_eq_ok_iff.mp hMember
        have hWrite :=
          EncodeFailure.ofAbort_eq_ok_iff.mp hMiddle
        refine ⟨member :: members,
          ⟨member, members, hItem, hMembers, rfl⟩, ?_⟩
        rw [List.map_cons, List.foldlM_cons, bind_eq_ok_iff]
        exact ⟨middle, hWrite, hAfter⟩
      · rintro ⟨_, ⟨member, members, hMember, hMembers, rfl⟩,
          hAfter⟩
        rw [List.map_cons, List.foldlM_cons, bind_eq_ok_iff]
          at hAfter
        rcases hAfter with ⟨middle, hMiddle, hAfter⟩
        have hFirst :
            update.writeElement name element item =
              .ok middle := by
          apply bind_eq_ok_iff.mpr
          refine ⟨member, ?_, ?_⟩
          · exact EncodeFailure.ofCodec_eq_ok_iff.mpr hMember
          · exact EncodeFailure.ofAbort_eq_ok_iff.mpr hMiddle
        have hRest := ih.mpr ⟨members, hMembers, hAfter⟩
        exact ⟨middle, hFirst, hRest⟩

end Update

------------------------------------------------------------
-- Slots
------------------------------------------------------------

/- What a slot puts into an entry with nothing in it. -/
def Slot.written :
    {kind : HandleKind} → Slot kind → Update.Entry
  | .counter, slot =>
      { Update.Entry.none with
        counter := some (slot.elim .zero Counter.pending) }
  | .set, slot =>
      { Update.Entry.none with
        adds :=
          Update.Entry.added
            (slot.elim [[]] SetHandle.adds)
        removes :=
          Update.Entry.removed
            (slot.elim [] SetHandle.removes) }
  | .flag, slot =>
      { Update.Entry.none with flag := slot.map Flag.state }
  | .register, slot =>
      { Update.Entry.none with
        register := slot.map Register.value }

namespace Slot

variable {kind : HandleKind}

/- A slot writes to no name but its own. -/
theorem name_of_mem_writes
    (slot : Slot kind)
    {name : String}
    {write : Write}
    (hWrite : write ∈ slot.writes name) :
    write.name = name := by
  cases kind with
  | counter =>
      cases slot with
      | none =>
          cases List.mem_singleton.mp hWrite
          rfl
      | some handle =>
          cases List.mem_singleton.mp hWrite
          rfl
  | set =>
      cases slot with
      | none =>
          cases List.mem_singleton.mp hWrite
          rfl
      | some handle =>
          rcases List.mem_append.mp hWrite with hAdd | hRemove
          · rcases List.mem_map.mp hAdd with ⟨member, _, hEq⟩
            exact hEq ▸ rfl
          · rcases List.mem_map.mp hRemove
              with ⟨member, _, hEq⟩
            exact hEq ▸ rfl
  | flag =>
      cases slot with
      | none => cases hWrite
      | some handle =>
          cases List.mem_singleton.mp hWrite
          rfl
  | register =>
      cases slot with
      | none => cases hWrite
      | some handle =>
          cases List.mem_singleton.mp hWrite
          rfl

/- The writes of a slot, where there is nothing. -/
theorem foldlM_writes
    (slot : Slot kind)
    (name : String) :
    (slot.writes name).foldlM Update.Entry.write .none =
      .ok slot.written := by
  have hCounter :
      ∀ amount : Integer .i64,
        [Write.increment name amount].foldlM
            Update.Entry.write .none =
          .ok { Update.Entry.none with
            counter := some amount } := by
    intro amount
    have hWrite :
        Update.Entry.none.write (.increment name amount) =
          .ok { Update.Entry.none with
            counter := some amount } := by
      unfold Update.Entry.write
      simp only [Update.Entry.none, Option.getD_none,
        Integer.zero_add?]
    rw [List.foldlM_cons, hWrite]
    rfl
  cases kind with
  | counter =>
      cases slot with
      | none => exact hCounter .zero
      | some handle => exact hCounter handle.pending
  | set =>
      cases slot with
      | none => rfl
      | some handle =>
          change (handle.adds.map (Write.add name) ++
            handle.removes.map (Write.remove name)).foldlM
              Update.Entry.write .none = _
          rw [List.foldlM_append,
            Update.Entry.foldlM_write_add name _ rfl]
          exact Update.Entry.foldlM_write_remove name _ _
  | flag => cases slot <;> rfl
  | register => cases slot <;> rfl

end Slot

/- A slot can be written where there is nothing. -/
theorem Update.exists_writeSlot
    {update : Update}
    {name : String}
    (hEntry : update.entry name = .none)
    {kind : HandleKind}
    (slot : Slot kind) :
    ∃ after,
      update.writeList (slot.writes name) = .ok after ∧
      Replaces name slot.written update after := by
  have hWrites :
      (slot.writes name).foldlM Entry.write
          (update.entry name) =
        .ok slot.written := by
    rw [hEntry]
    exact slot.foldlM_writes name
  rcases foldlM_write_eq_ok
    (fun _ hWrite => slot.name_of_mem_writes hWrite) hWrites
    with ⟨after, hAfter, hReplaces⟩
  refine ⟨after, ?_, hReplaces⟩
  exact EncodeFailure.ofAbort_eq_ok_iff.mpr hAfter

end CrdtDoc
