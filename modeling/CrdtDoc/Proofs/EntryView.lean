import CrdtDoc.Update

/-
  This file defines what an update writes under one name,
  over all its sections, and what a single write makes of
  it.  A write leaves the entries of all other names alone.

  Key definitions include:
    * `Write.name`
    * `Update.Entry`
    * `Update.entry`
    * `Update.Entry.write`
    * `Update.Replaces`

  Writes are described by:
    * `Update.write_eq_ok`
    * `Update.write_eq_error`
    * `Update.foldlM_write_eq_ok`
    * `Update.foldlM_write_eq_error`
    * `Update.replaces_of_foldlM_write`
-/

namespace CrdtDoc

/- The name that a write is under. -/
def Write.name : Write → String
  | .register name _ => name
  | .increment name _ => name
  | .add name _ => name
  | .remove name _ => name
  | .flag name _ => name
  | .map name => name

namespace Update

------------------------------------------------------------
-- Entries
------------------------------------------------------------

/- What is written under one name. -/
structure Entry where
  register : Option Bytes
  counter : Option (Integer .i64)
  adds : Option (List Bytes)
  removes : Option (List Bytes)
  flag : Option Bool
  map : Option Update

/- What an update writes under a name. -/
def entry
    (update : Update)
    (name : String) : Entry where
  register := update.register? name
  counter := update.counter? name
  adds := update.adds? name
  removes := update.removes? name
  flag := update.flag? name
  map := update.map? name

namespace Entry

/- Nothing is written. -/
def none : Entry :=
  ⟨.none, .none, .none, .none, .none, .none⟩

/- The members to be added, with one more of them. -/
def withMember
    (members : List Bytes)
    (member : Bytes) : List Bytes :=
  if members.contains member then members
  else members ++ [member]

/- What a write makes of the entry of its name. -/
def write
    (entry : Entry) : Write → Except Abort Entry
  | .register name value =>
      if entry.adds.isSome then .error (.nameOfSet name)
      else .ok { entry with register := some value }
  | .increment _ amount =>
      match (entry.counter.getD .zero).add? amount with
      | .none => .error .overflow
      | some sum => .ok { entry with counter := some sum }
  | .add name member =>
      if entry.register.isSome then
        .error (.nameOfRegister name)
      else
        .ok { entry with
          adds :=
            some (withMember (entry.adds.getD []) member) }
  | .remove _ member =>
      .ok { entry with
        removes := some (entry.removes.getD [] ++ [member]) }
  | .flag _ state => .ok { entry with flag := some state }
  | .map _ =>
      .ok { entry with map := some (entry.map.getD empty) }

end Entry

/- The update that writes nothing has no entries. -/
@[simp] theorem entry_empty
    (name : String) :
    empty.entry name = Entry.none := by
  rfl

------------------------------------------------------------
-- Sections
------------------------------------------------------------

variable {update after : Update}

/- A register is put under its name alone. -/
theorem entry_insert_register
    (update : Update)
    (name : String)
    (value : Bytes)
    (other : String) :
    entry { update with
        registers :=
          Entries.insert update.registers name value } other =
      if name = other then
        { update.entry other with register := some value }
      else update.entry other := by
  simp only [entry, register?, Entries.find?_insert]
  split <;> rfl

/- An amount is put under its name alone. -/
theorem entry_insert_counter
    (update : Update)
    (name : String)
    (amount : Integer .i64)
    (other : String) :
    entry { update with
        counters :=
          Entries.insert update.counters name amount } other =
      if name = other then
        { update.entry other with counter := some amount }
      else update.entry other := by
  simp only [entry, counter?, Entries.find?_insert]
  split <;> rfl

/- Members to be added are put under their name alone. -/
theorem entry_insert_adds
    (update : Update)
    (name : String)
    (members : List Bytes)
    (other : String) :
    entry { update with
        adds :=
          Entries.insert update.adds name members } other =
      if name = other then
        { update.entry other with adds := some members }
      else update.entry other := by
  simp only [entry, adds?, Entries.find?_insert]
  split <;> rfl

/- Members to be removed are put under their name alone. -/
theorem entry_insert_removes
    (update : Update)
    (name : String)
    (members : List Bytes)
    (other : String) :
    entry { update with
        removes :=
          Entries.insert update.removes name members } other =
      if name = other then
        { update.entry other with removes := some members }
      else update.entry other := by
  simp only [entry, removes?, Entries.find?_insert]
  split <;> rfl

/- A flag is put under its name alone. -/
theorem entry_setFlag
    (update : Update)
    (name : String)
    (state : Bool)
    (other : String) :
    (update.setFlag name state).entry other =
      if name = other then
        { update.entry other with flag := some state }
      else update.entry other := by
  simp only [setFlag, entry, flag?, Entries.find?_insert]
  split <;> rfl

/- A child is put under its name alone. -/
theorem entry_setChild
    (update : Update)
    (name : String)
    (child : Update)
    (other : String) :
    (update.setChild name child).entry other =
      if name = other then
        { update.entry other with map := some child }
      else update.entry other := by
  simp only [setChild, entry, map?, Entries.find?_insert]
  split <;> rfl

------------------------------------------------------------
-- Single Writes
------------------------------------------------------------

/- An update has a new entry of a name, and no other one. -/
def Replaces
    (name : String)
    (entry : Entry)
    (before after : Update) : Prop :=
  ∀ other,
    after.entry other =
      if name = other then entry else before.entry other

namespace Replaces

variable {name : String} {entry : Entry} {before : Update}

/- The new entry. -/
theorem entry_eq
    (hReplaces : Replaces name entry before after) :
    after.entry name = entry := by
  rw [hReplaces, if_pos rfl]

/- The other entries are the old ones. -/
theorem entry_of_ne
    (hReplaces : Replaces name entry before after)
    {other : String}
    (hOther : other ≠ name) :
    after.entry other = before.entry other := by
  rw [hReplaces, if_neg hOther.symm]

/- What is free besides the new entry stays free. -/
theorem entry_of_mem
    (hReplaces : Replaces name entry before after)
    {names : List String}
    (hName : name ∉ names)
    (hFree : ∀ other ∈ name :: names,
      before.entry other = .none) :
    ∀ other ∈ names, after.entry other = .none := by
  intro other hOther
  have hNe : other ≠ name := by
    intro hEq
    exact hName (hEq ▸ hOther)
  rw [hReplaces.entry_of_ne hNe]
  exact hFree other (List.mem_cons_of_mem _ hOther)

/- The later of two new entries counts. -/
theorem trans
    {later : Update}
    {last : Entry}
    (hFirst : Replaces name entry before after)
    (hSecond : Replaces name last after later) :
    Replaces name last before later := by
  intro other
  rw [hSecond, hFirst]
  split <;> rfl

end Replaces

/- A write that the entry of its name allows is made. -/
theorem write_eq_ok
    {write : Write}
    {entry : Entry}
    (hEntry :
      (update.entry write.name).write write = .ok entry) :
    ∃ after,
      update.write write = .ok after ∧
      Replaces write.name entry update after := by
  cases write with
  | register name value =>
      change (if (update.adds? name).isSome then _ else _) =
        _ at hEntry
      split at hEntry
      · cases hEntry
      · rename_i hAdds
        cases hEntry
        refine ⟨_, if_neg hAdds, fun other => ?_⟩
        rw [entry_insert_register]
        split <;> simp_all [Write.name]
  | increment name amount =>
      change (match
          ((update.counter? name).getD .zero).add? amount with
        | none => _
        | some sum => _) = _ at hEntry
      split at hEntry
      · cases hEntry
      · rename_i sum hSum
        cases hEntry
        refine ⟨_, by
          rw [Update.write, increment, hSum], fun other => ?_⟩
        rw [entry_insert_counter]
        split <;> simp_all [Write.name]
  | add name member =>
      change (if (update.register? name).isSome then _
        else _) = _ at hEntry
      split at hEntry
      · cases hEntry
      · rename_i hRegister
        cases hEntry
        refine ⟨_, if_neg hRegister, fun other => ?_⟩
        rw [entry_insert_adds]
        split <;> simp_all [Write.name, Entry.withMember, entry]
  | remove name member =>
      cases hEntry
      refine ⟨_, rfl, fun other => ?_⟩
      rw [removeMember, entry_insert_removes]
      split <;> simp_all [Write.name, entry]
  | flag name state =>
      cases hEntry
      refine ⟨_, rfl, fun other => ?_⟩
      rw [entry_setFlag]
      split <;> simp_all [Write.name]
  | map name =>
      cases hEntry
      refine ⟨_, rfl, fun other => ?_⟩
      rw [entry_setChild]
      split <;> simp_all [Write.name, entry, child]

/- A write that the entry of its name refuses is not made. -/
theorem write_eq_error
    {write : Write}
    {reason : Abort}
    (hEntry :
      (update.entry write.name).write write =
        .error reason) :
    update.write write = .error reason := by
  cases write with
  | register name value =>
      change (if (update.adds? name).isSome then _ else _) =
        _ at hEntry
      split at hEntry
      · rename_i hAdds
        cases hEntry
        exact if_pos hAdds
      · cases hEntry
  | increment name amount =>
      change (match
          ((update.counter? name).getD .zero).add? amount with
        | none => _
        | some sum => _) = _ at hEntry
      split at hEntry
      · rename_i hSum
        cases hEntry
        rw [Update.write, increment, hSum]
      · cases hEntry
  | add name member =>
      change (if (update.register? name).isSome then _
        else _) = _ at hEntry
      split at hEntry
      · rename_i hRegister
        cases hEntry
        exact if_pos hRegister
      · cases hEntry
  | remove name member => cases hEntry
  | flag name state => cases hEntry
  | map name => cases hEntry

------------------------------------------------------------
-- Several Writes
------------------------------------------------------------

/- Writes that the entry of their name allows are made. -/
theorem foldlM_write_eq_ok
    {name : String}
    {writes : List Write}
    (hName : ∀ write ∈ writes, write.name = name)
    {entry : Entry}
    (hEntry :
      writes.foldlM Entry.write (update.entry name) =
        .ok entry) :
    ∃ after,
      writes.foldlM Update.write update = .ok after ∧
      Replaces name entry update after := by
  induction writes generalizing update with
  | nil =>
      cases hEntry
      refine ⟨update, rfl, fun other => ?_⟩
      split
      · rename_i hEq
        rw [hEq]
      · rfl
  | cons write rest ih =>
      have hFirstName : write.name = name :=
        hName write List.mem_cons_self
      rw [List.foldlM_cons] at hEntry
      cases hNext : (update.entry name).write write with
      | error reason =>
          rw [hNext] at hEntry
          cases hEntry
      | ok next =>
          rw [hNext] at hEntry
          rw [← hFirstName] at hNext
          rcases write_eq_ok hNext
            with ⟨middle, hMiddle, hFirst⟩
          rw [hFirstName] at hFirst
          rw [← hFirst.entry_eq] at hEntry
          obtain ⟨after, hAfter, hRest⟩ :=
            ih (fun w hMem =>
              hName w (List.mem_cons_of_mem _ hMem)) hEntry
          refine ⟨after, ?_, hFirst.trans hRest⟩
          rw [List.foldlM_cons, hMiddle]
          exact hAfter

/- Writes that the entry of their name refuses are not made. -/
theorem foldlM_write_eq_error
    {name : String}
    {writes : List Write}
    (hName : ∀ write ∈ writes, write.name = name)
    {reason : Abort}
    (hEntry :
      writes.foldlM Entry.write (update.entry name) =
        .error reason) :
    writes.foldlM Update.write update = .error reason := by
  induction writes generalizing update with
  | nil => cases hEntry
  | cons write rest ih =>
      have hFirstName : write.name = name :=
        hName write List.mem_cons_self
      rw [List.foldlM_cons] at hEntry ⊢
      cases hNext : (update.entry name).write write with
      | error first =>
          rw [hNext] at hEntry
          cases hEntry
          rw [← hFirstName] at hNext
          rw [write_eq_error hNext]
          rfl
      | ok next =>
          rw [hNext] at hEntry
          rw [← hFirstName] at hNext
          rcases write_eq_ok hNext
            with ⟨middle, hMiddle, hFirst⟩
          rw [hFirstName] at hFirst
          rw [← hFirst.entry_eq] at hEntry
          rw [hMiddle]
          exact ih (fun w hMem =>
            hName w (List.mem_cons_of_mem _ hMem)) hEntry

/- Writes that were made were allowed by their entry. -/
theorem replaces_of_foldlM_write
    {name : String}
    {writes : List Write}
    (hName : ∀ write ∈ writes, write.name = name)
    (hWrite :
      writes.foldlM Update.write update = .ok after) :
    ∃ entry,
      writes.foldlM Entry.write (update.entry name) =
        .ok entry ∧
      Replaces name entry update after := by
  cases hEntry :
      writes.foldlM Entry.write (update.entry name) with
  | error reason =>
      rw [foldlM_write_eq_error hName hEntry] at hWrite
      cases hWrite
  | ok entry =>
      rcases foldlM_write_eq_ok hName hEntry
        with ⟨made, hMade, hReplaces⟩
      rw [hMade] at hWrite
      cases hWrite
      exact ⟨entry, rfl, hReplaces⟩

end Update

end CrdtDoc
