import CrdtDoc.Proofs.StoreHistory
import CrdtDoc.Proofs.UpdateAtPath

/-
  This file shows what a store keeps: only the deletion of a
  document takes an entry away, at any depth, and only an
  update with a causal context that lists a member takes the
  member out of a set.

  What a poisoned store holds cannot be read any more, but
  it is kept as well.

  Key definitions include:
    * `Update.Removes`
    * `CrdtMap.Holds`
    * `CrdtMap.HasMember`
    * `Command.Deletes`
    * `Command.Removes`

  Main declarations:
    * `Update.removesMembers_iff`
    * `Update.holds_of_apply`
    * `Update.hasMember_of_apply`
    * `Store.Executes.keeps`
    * `Store.keeps_after`
    * `Store.kept_on_any_run`
-/

namespace CrdtDoc

------------------------------------------------------------
-- Removals
------------------------------------------------------------

namespace Update

/-
  Is a member listed to be removed from the set of a name,
  in the map under a path?
-/
def Removes
    (update : Update) :
    List String → String → Bytes → Prop
  | [], name, member =>
      ∃ removed,
        (name, removed) ∈ update.removes ∧ member ∈ removed
  | first :: rest, name, member =>
      ∃ child,
        (first, child) ∈ update.maps ∧
        child.Removes rest name member

/- A removal within a map shows in its section. -/
theorem anyRemovesMembers_of_mem
    {maps : List (String × Update)}
    {entry : String × Update}
    (hEntry : entry ∈ maps)
    (hRemoves : entry.2.removesMembers = true) :
    anyRemovesMembers maps = true := by
  induction maps with
  | nil => cases hEntry
  | cons first rest ih =>
      rw [anyRemovesMembers, Bool.or_eq_true]
      rcases List.mem_cons.mp hEntry with hEq | hRest
      · exact Or.inl (hEq ▸ hRemoves)
      · exact Or.inr (ih hRest)

mutual
/- What removes members lists one at some path. -/
theorem exists_removes :
    (update : Update) → update.removesMembers = true →
      ∃ path name member, update.Removes path name member
  | ⟨_, _, _, removes, _, maps⟩, hRemoves => by
      rw [removesMembers, Bool.or_eq_true] at hRemoves
      rcases hRemoves with hHere | hWithin
      · rcases List.any_eq_true.mp hHere
          with ⟨⟨name, removed⟩, hEntry, hSome⟩
        cases removed with
        | nil => cases hSome
        | cons member rest =>
            exact ⟨[], name, member, member :: rest, hEntry,
              List.mem_cons_self⟩
      · rcases exists_removes_of_any maps hWithin
          with ⟨⟨first, child⟩, hEntry, path, name, member,
            hChild⟩
        exact ⟨first :: path, name, member, child, hEntry,
          hChild⟩

/- What removes members within a section lists one there. -/
theorem exists_removes_of_any :
    (maps : List (String × Update)) →
      anyRemovesMembers maps = true →
      ∃ entry ∈ maps, ∃ path name member,
        entry.2.Removes path name member
  | [], hRemoves => by cases hRemoves
  | (first, child) :: rest, hRemoves => by
      rw [anyRemovesMembers, Bool.or_eq_true] at hRemoves
      rcases hRemoves with hFirst | hRest
      · exact ⟨(first, child), List.mem_cons_self,
          exists_removes child hFirst⟩
      · rcases exists_removes_of_any rest hRest
          with ⟨entry, hEntry, hRemoves⟩
        exact ⟨entry, List.mem_cons_of_mem _ hEntry,
          hRemoves⟩
end

/- The check for removals finds all of them, at any depth. -/
theorem removesMembers_iff
    {update : Update} :
    update.removesMembers = true ↔
      ∃ path name member,
        update.Removes path name member := by
  refine ⟨exists_removes update, ?_⟩
  rintro ⟨path, name, member, hRemoves⟩
  induction path generalizing update with
  | nil =>
      rcases hRemoves with ⟨removed, hEntry, hMember⟩
      rcases update with ⟨_, _, _, removes, _, maps⟩
      rw [removesMembers, Bool.or_eq_true]
      refine Or.inl (List.any_eq_true.mpr
        ⟨(name, removed), hEntry, ?_⟩)
      cases removed with
      | nil => cases hMember
      | cons first rest => rfl
  | cons first rest ih =>
      rcases hRemoves with ⟨child, hEntry, hChild⟩
      rcases update with ⟨_, _, _, removes, _, maps⟩
      rw [removesMembers, Bool.or_eq_true]
      exact Or.inr
        (anyRemovesMembers_of_mem hEntry (ih hChild))

end Update

------------------------------------------------------------
-- Maps
------------------------------------------------------------

namespace CrdtMap

/- Is there an entry of a kind and name at a path? -/
def Holds
    (map : CrdtMap)
    (path : List String)
    (kind : FieldKind)
    (name : String) : Prop :=
  ((map.reach path).entry name).Has kind

/- Has the set of a name at a path a member? -/
def HasMember
    (map : CrdtMap)
    (path : List String)
    (name : String)
    (member : Bytes) : Prop :=
  member ∈ ((map.reach path).set? name).getD []

end CrdtMap

/- A name that is listed stays so with every insertion. -/
theorem Entries.find?_insert_ne_none
    {α : Type}
    {entries : Entries α}
    {name : String}
    (hFind : find? entries name ≠ none)
    (other : String)
    (value : α) :
    find? (insert entries other value) name ≠ none := by
  rw [find?_insert]
  split
  · exact Option.some_ne_none value
  · exact hFind

namespace Update

variable {name : String}

/- Registers and flags are replaced, and never taken away. -/
theorem find?_overwrite_ne_none
    {α : Type}
    {entries : Entries α}
    (hFind : Entries.find? entries name ≠ none)
    (new : Entries α) :
    Entries.find? (overwrite entries new) name ≠ none :=
  List.foldlRecOn
    (motive := fun entries => Entries.find? entries name ≠ none)
    new _ hFind fun _ hKept entry _ =>
      Entries.find?_insert_ne_none hKept entry.1 entry.2

/- Counters are added to, and never taken away. -/
theorem find?_addAmounts_ne_none
    {counters amounts after : Entries (Integer .i64)}
    (hFind : Entries.find? counters name ≠ none)
    (hAdd : addAmounts counters amounts = .ok after) :
    Entries.find? after name ≠ none := by
  refine foldlM_induction
    (fun counters => Entries.find? counters name ≠ none)
    ?_ hFind hAdd
  intro counters entry _ next hKept hNext
  simp only at hNext
  split at hNext
  · cases hNext
  · cases hNext
    exact Entries.find?_insert_ne_none hKept _ _

/- Sets are changed, and never taken away. -/
theorem find?_changedSets_ne_none
    {sets : Entries Members}
    (hFind : Entries.find? sets name ≠ none)
    (removes adds : Entries (List Bytes)) :
    Entries.find? (addToSets (removeFromSets sets removes) adds)
      name ≠ none := by
  have hRemoved :
      Entries.find? (removeFromSets sets removes) name ≠
        none := by
    refine List.foldlRecOn
      (motive := fun sets => Entries.find? sets name ≠ none)
      removes _ hFind ?_
    intro sets hKept entry _
    simp only
    split
    · exact hKept
    · exact Entries.find?_insert_ne_none hKept _ _
  exact List.foldlRecOn
    (motive := fun sets => Entries.find? sets name ≠ none)
    adds _ hRemoved fun _ hKept _ _ =>
      Entries.find?_insert_ne_none hKept _ _

/- A member leaves a set only if it is listed. -/
theorem mem_removeFromSets
    {sets : Entries Members}
    {member : Bytes}
    (hMember :
      member ∈ (Entries.find? sets name).getD [])
    (removes : Entries (List Bytes)) :
    member ∈
        (Entries.find? (removeFromSets sets removes) name).getD
          [] ∨
      ∃ removed,
        (name, removed) ∈ removes ∧ member ∈ removed := by
  refine List.foldlRecOn
    (motive := fun sets =>
      member ∈ (Entries.find? sets name).getD [] ∨
        ∃ removed,
          (name, removed) ∈ removes ∧ member ∈ removed)
    removes _ (Or.inl hMember) ?_
  rintro sets (hKept | hListed) ⟨other, removed⟩ hEntry
  · simp only
    cases hFind : Entries.find? sets other with
    | none => exact Or.inl hKept
    | some members =>
        simp only
        rw [Entries.find?_insert]
        by_cases hName : other = name
        · subst hName
          rw [hFind, Option.getD_some] at hKept
          rw [if_pos rfl, Option.getD_some]
          by_cases hRemoved : member ∈ removed
          · exact Or.inr ⟨removed, hEntry, hRemoved⟩
          · refine Or.inl (List.mem_filter.mpr ⟨hKept, ?_⟩)
            simpa using hRemoved
        · rw [if_neg hName]
          exact Or.inl hKept
  · exact Or.inr hListed

/- No member leaves a set when others are added. -/
theorem mem_addToSets
    {sets : Entries Members}
    {member : Bytes}
    (hMember :
      member ∈ (Entries.find? sets name).getD [])
    (adds : Entries (List Bytes)) :
    member ∈
      (Entries.find? (addToSets sets adds) name).getD [] := by
  refine List.foldlRecOn
    (motive := fun sets =>
      member ∈ (Entries.find? sets name).getD [])
    adds _ hMember ?_
  rintro sets hKept ⟨other, added⟩ _
  simp only
  rw [Entries.find?_insert]
  split
  · rename_i hName
    subst hName
    exact Members.mem_insertAll.mpr (Or.inl hKept)
  · exact hKept

/-
  What holds of a map within another one after an update, if
  it is kept by each update that is listed for the map.
-/
theorem child_induction
    (holds : CrdtMap → Prop)
    {update : Update}
    {map after : CrdtMap}
    (hApply : update.apply map = .ok after)
    (hStep :
      ∀ child, (name, child) ∈ update.maps →
        ∀ {before made},
          holds before → child.apply before = .ok made →
            holds made)
    (hChild : holds (map.child name)) :
    holds (after.child name) := by
  rcases update
    with ⟨registers, counters, adds, removes, flags, maps⟩
  rw [apply, bind_eq_ok_iff] at hApply
  rcases hApply with ⟨_, _, hRest⟩
  rcases bind_eq_ok_iff.mp hRest with ⟨merged, hMerged, hDone⟩
  cases hDone
  rw [applyAll_eq_foldlM] at hMerged
  refine foldlM_induction
    (fun maps => holds ((Entries.find? maps name).getD .empty))
    ?_ hChild hMerged
  rintro maps ⟨other, child⟩ hEntry next hKept hNext
  rcases bind_eq_ok_iff.mp hNext with ⟨made, hMade, hInsert⟩
  cases hInsert
  rw [Entries.find?_insert]
  split
  · rename_i hName
    subst hName
    exact hStep child hEntry hKept hMade
  · exact hKept

/- An update takes no entry away, at any depth. -/
theorem holds_of_apply
    {update : Update}
    {map after : CrdtMap}
    (hApply : update.apply map = .ok after)
    {path : List String}
    {kind : FieldKind}
    (hHolds : map.Holds path kind name) :
    after.Holds path kind name := by
  induction path generalizing update map after with
  | nil =>
      rcases update
        with ⟨registers, counters, adds, removes, flags, maps⟩
      rw [apply, bind_eq_ok_iff] at hApply
      rcases hApply with ⟨summed, hSummed, hRest⟩
      rcases bind_eq_ok_iff.mp hRest
        with ⟨merged, hMerged, hDone⟩
      cases hDone
      cases kind with
      | register => exact find?_overwrite_ne_none hHolds _
      | counter => exact find?_addAmounts_ne_none hHolds hSummed
      | set => exact find?_changedSets_ne_none hHolds _ _
      | flag => exact find?_overwrite_ne_none hHolds _
      | map =>
          rw [applyAll_eq_foldlM] at hMerged
          refine foldlM_induction
            (fun maps => Entries.find? maps name ≠ none)
            ?_ hHolds hMerged
          intro maps entry _ next hKept hNext
          rcases bind_eq_ok_iff.mp hNext
            with ⟨made, _, hInsert⟩
          cases hInsert
          exact Entries.find?_insert_ne_none hKept _ _
      | unsupported _ => exact hHolds
  | cons first rest ih =>
      rw [CrdtMap.Holds, CrdtMap.reach_cons] at hHolds ⊢
      exact child_induction
        (fun child => child.Holds rest kind name) hApply
        (fun _ _ _ _ hKept hMade => ih hMade hKept) hHolds

/-
  A member leaves a set at a path only if the update lists
  it for removal from that set.
-/
theorem hasMember_of_apply
    {update : Update}
    {map after : CrdtMap}
    (hApply : update.apply map = .ok after)
    {path : List String}
    {member : Bytes}
    (hMember : map.HasMember path name member) :
    after.HasMember path name member ∨
      update.Removes path name member := by
  induction path generalizing update map after with
  | nil =>
      rcases update
        with ⟨registers, counters, adds, removes, flags, maps⟩
      rw [apply, bind_eq_ok_iff] at hApply
      rcases hApply with ⟨_, _, hRest⟩
      rcases bind_eq_ok_iff.mp hRest with ⟨_, _, hDone⟩
      cases hDone
      exact (mem_removeFromSets hMember removes).imp
        (mem_addToSets · adds) id
  | cons first rest ih =>
      rw [CrdtMap.HasMember, CrdtMap.reach_cons] at hMember ⊢
      -- Once the member is listed, nothing is left to show.
      refine child_induction
        (fun child =>
          child.HasMember rest name member ∨
            update.Removes (first :: rest) name member)
        hApply ?_ (Or.inl hMember)
      rintro child hEntry before made (hKept | hListed) hMade
      · exact (ih hMade hKept).imp id fun hRemoves =>
          ⟨child, hEntry, hRemoves⟩
      · exact Or.inr hListed

end Update

------------------------------------------------------------
-- Commands
------------------------------------------------------------

namespace Command

/- Does a command delete the document of a location? -/
def Deletes
    (location : Location) : Command → Prop
  | .delete command => command.location = location
  | _ => False

/-
  Is a command an update with a causal context, of the
  document of a location, that lists a member for removal
  from the set of a name at a path?
-/
def Removes
    (newKey : Nat → String)
    (issued : Nat)
    (location : Location)
    (path : List String)
    (name : String)
    (member : Bytes) : Command → Prop
  | .change command =>
      command.location.keyed newKey issued = location ∧
      command.context.isSome ∧
      command.update.Removes path name member
  | _ => False

end Command

namespace Store

/- Is an entry of a kind and name stored at a path? -/
def Holds
    (store : Store)
    (location : Location)
    (path : List String)
    (kind : FieldKind)
    (name : String) : Prop :=
  ∃ stored,
    find? store.objects location = some stored ∧
    stored.map.Holds path kind name

/- Is a member stored in the set of a name at a path? -/
def HasMember
    (store : Store)
    (location : Location)
    (path : List String)
    (name : String)
    (member : Bytes) : Prop :=
  ∃ stored,
    find? store.objects location = some stored ∧
    stored.map.HasMember path name member

variable {newKey : Nat → String} {store next : Store}
variable {location : Location} {path : List String}
variable {kind : FieldKind} {name : String} {member : Bytes}

/-
  What is stored stays there with a command, is deleted by
  it, or is what its update makes of the map.
-/
theorem Executes.find?_cases
    {command : Command}
    {result : Except Abort (Except TransportError Response)}
    (hExecutes : Executes newKey store command result next)
    {stored : StoredMap}
    (hStored : find? store.objects location = some stored) :
    find? next.objects location = some stored ∨
    command.Deletes location ∨
    ∃ change made,
      command = .change change ∧
      Accepts change ∧
      change.location.keyed newKey store.issuedKeys =
        location ∧
      change.update.apply stored.map = .ok made.map ∧
      find? next.objects location = some made := by
  cases hExecutes with
  | refused _ _ _ => exact Or.inl hStored
  | fetched _ _ => exact Or.inl hStored
  | stopped _ _ _ _ _ => exact Or.inl hStored
  | deleted command _ =>
      by_cases hLocation : location = command.location
      · exact Or.inr (Or.inl hLocation.symm)
      · refine Or.inl ?_
        rw [find?_remove, if_neg hLocation]
        exact hStored
  | changed command made hReadable hAccepts hUpdated =>
      by_cases hLocation :
          location =
            command.location.keyed newKey store.issuedKeys
      · refine Or.inr (Or.inr ⟨command, made, rfl, hAccepts,
          hLocation.symm, ?_, ?_⟩)
        · rw [updated, ← hLocation, hStored,
            Option.getD_some] at hUpdated
          exact StoredMap.apply_of_update hUpdated
        · rw [find?_put, if_pos hLocation]
      · refine Or.inl ?_
        rw [find?_put, if_neg hLocation]
        exact hStored

/- Only the deletion of its document takes an entry away. -/
theorem Executes.keeps
    {command : Command}
    {result : Except Abort (Except TransportError Response)}
    (hExecutes : Executes newKey store command result next)
    (hHolds : store.Holds location path kind name) :
    next.Holds location path kind name ∨
      command.Deletes location := by
  rcases hHolds with ⟨stored, hStored, hHolds⟩
  rcases hExecutes.find?_cases hStored
    with hSame | hDeletes |
      ⟨_, made, _, _, _, hApply, hMade⟩
  · exact Or.inl ⟨stored, hSame, hHolds⟩
  · exact Or.inr hDeletes
  · exact Or.inl
      ⟨made, hMade, Update.holds_of_apply hApply hHolds⟩

/-
  Only the deletion of its document, or an update that lists
  it and has a causal context, takes a member away.
-/
theorem Executes.keepsMember
    {command : Command}
    {result : Except Abort (Except TransportError Response)}
    (hExecutes : Executes newKey store command result next)
    (hMember : store.HasMember location path name member) :
    next.HasMember location path name member ∨
      command.Deletes location ∨
      command.Removes newKey store.issuedKeys location path
        name member := by
  rcases hMember with ⟨stored, hStored, hMember⟩
  rcases hExecutes.find?_cases hStored
    with hSame | hDeletes |
      ⟨change, made, hCommand, hAccepts, hLocation, hApply,
        hMade⟩
  · exact Or.inl ⟨stored, hSame, hMember⟩
  · exact Or.inr (Or.inl hDeletes)
  · rcases Update.hasMember_of_apply hApply hMember
      with hKept | hRemoves
    · exact Or.inl ⟨made, hMade, hKept⟩
    · have hSome : change.context.isSome := by
        rw [Option.isSome_iff_ne_none]
        intro hNone
        have hGuard := hAccepts.2.2 hNone
        rw [Update.removesMembers_iff.mpr
          ⟨path, name, member, hRemoves⟩] at hGuard
        cases hGuard
      subst hCommand
      exact Or.inr (Or.inr ⟨hLocation, hSome, hRemoves⟩)

------------------------------------------------------------
-- Runs
------------------------------------------------------------

/- An entry that is gone after a run was deleted on it. -/
theorem keeps_after
    (actions : List Action)
    (hHolds : store.Holds location path kind name) :
    (store.after newKey actions).Holds location path kind
        name ∨
      ∃ command,
        .send command ∈ actions ∧
        command.Deletes location := by
  induction actions generalizing store with
  | nil => exact Or.inl hHolds
  | cons action rest ih =>
      have hLater :
          ∀ next : Store,
            next.Holds location path kind name →
              (next.after newKey rest).Holds location path
                  kind name ∨
                ∃ command,
                  .send command ∈ action :: rest ∧
                  command.Deletes location := by
        intro next hNext
        refine (ih hNext).imp id ?_
        rintro ⟨command, hMem, hDeletes⟩
        exact ⟨command, List.mem_cons_of_mem _ hMem,
          hDeletes⟩
      cases action with
      | takeLog => exact hLater store.takeLog.2 hHolds
      | send command =>
          rcases (executes newKey store command).keeps hHolds
            with hKept | hDeletes
          · exact hLater _ hKept
          · exact Or.inr
              ⟨command, List.mem_cons_self, hDeletes⟩

/-
  A member that is gone after a run was deleted on it with
  its document, or was removed on it, by an update with a
  causal context that lists it.
-/
theorem keepsMember_after
    (actions : List Action)
    (hMember : store.HasMember location path name member) :
    (store.after newKey actions).HasMember location path name
        member ∨
      (∃ command,
        .send command ∈ actions ∧
        command.Deletes location) ∨
      ∃ first command last,
        actions = first ++ .send command :: last ∧
        command.Removes newKey
          (store.after newKey first).issuedKeys location path
          name member := by
  induction actions generalizing store with
  | nil => exact Or.inl hMember
  | cons action rest ih =>
      have hLater :
          (store.step newKey action).HasMember location path
            name member →
          ((store.step newKey action).after newKey
              rest).HasMember location path name member ∨
            (∃ command,
              .send command ∈ action :: rest ∧
              command.Deletes location) ∨
            ∃ first command last,
              action :: rest =
                first ++ .send command :: last ∧
              command.Removes newKey
                (store.after newKey first).issuedKeys
                location path name member := by
        intro hNext
        rcases ih hNext
          with hKept | ⟨command, hMem, hDeletes⟩ |
            ⟨first, command, last, hRest, hRemoves⟩
        · exact Or.inl hKept
        · exact Or.inr (Or.inl ⟨command,
            List.mem_cons_of_mem _ hMem, hDeletes⟩)
        · refine Or.inr (Or.inr
            ⟨action :: first, command, last, ?_, hRemoves⟩)
          rw [hRest]
          rfl
      cases action with
      | takeLog => exact hLater hMember
      | send command =>
          rcases (executes newKey store command).keepsMember
            hMember with hKept | hDeletes | hRemoves
          · exact hLater hKept
          · exact Or.inr (Or.inl
              ⟨command, List.mem_cons_self, hDeletes⟩)
          · exact Or.inr (Or.inr
              ⟨[], command, rest, rfl, hRemoves⟩)

/-
  On every run of a new store, what was stored at some time
  is stored later, unless its document was deleted, and a
  member of a set is still in it, unless an update with a
  causal context listed it for removal from that set.  An
  update without a context keeps all members of all sets.
-/
theorem kept_on_any_run
    (newKey : Nat → String)
    (before later : List Action) :
    let store := Store.empty.after newKey before
    let last := store.after newKey later
    (∀ location path kind name,
      store.Holds location path kind name →
        last.Holds location path kind name ∨
        ∃ command,
          .send command ∈ later ∧
          command.Deletes location) ∧
    (∀ location path name member,
      store.HasMember location path name member →
        last.HasMember location path name member ∨
        (∃ command,
          .send command ∈ later ∧
          command.Deletes location) ∨
        ∃ first command rest,
          later = first ++ .send command :: rest ∧
          command.Removes newKey
            (store.after newKey first).issuedKeys location
            path name member) ∧
    (∀ change,
      change.context = none →
      ∀ location path name member,
        store.HasMember location path name member →
          (store.next newKey (.change change)).HasMember
            location path name member) := by
  intro store last
  refine ⟨fun _ _ _ _ => keeps_after later,
    fun _ _ _ _ => keepsMember_after later, ?_⟩
  intro change hContext location path name member hMember
  rcases (executes newKey store (.change change)).keepsMember
    hMember with hKept | hDeletes | ⟨_, hSome, _⟩
  · exact hKept
  · exact hDeletes.elim
  · rw [hContext] at hSome
    cases hSome

end Store

end CrdtDoc
