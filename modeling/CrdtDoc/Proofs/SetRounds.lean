import CrdtDoc.Proofs.HandleSending
import CrdtDoc.Proofs.MemberOrder

/-
  This file shows that a handle of a set shows what the
  store will hold once the handle is sent, however often
  items were added and removed, round after round.

  Key definitions include:
    * `Store.members`
    * `SetHandle.Shows`
    * `SetAction`
    * `SetHandle.step`
    * `SetHandle.Undisturbed`
    * `SetHandle.Settles`

  Main declarations:
    * `SetHandle.Shows.add`
    * `SetHandle.Shows.remove`
    * `HandleKind.Sent.set`
    * `SetHandle.settles_of_send`
-/

namespace CrdtDoc

/- The members of a stored set, none if there is no set. -/
def Store.members
    (store : Store)
    (path : Path)
    (name : String) : Members :=
  (store.leaf path name).set.getD []

------------------------------------------------------------
-- Single Sets
------------------------------------------------------------

namespace SetHandle

/-
  The items of a handle are those that will be stored: the
  members that are not to be removed, and those to be added,
  without the member that only makes a set.
-/
def Shows
    (set : SetHandle)
    (members : Members) : Prop :=
  ∀ item,
    item ∈ set.items ↔
      item ≠ [] ∧
      (item ∈ members ∧ item ∉ set.removes ∨
        item ∈ set.adds)

/- The items stored are the members but for the empty one. -/
theorem mem_storedItems_iff
    {map : CrdtMap}
    {name : String}
    {item : Bytes} :
    item ∈ storedItems map name ↔
      item ≠ [] ∧ item ∈ (map.set? name).getD [] := by
  rw [storedItems, List.mem_filter]
  simp [and_comm]

/- A handle that was just loaded shows what is stored. -/
theorem shows_load
    (binding : Binding)
    (map : CrdtMap) :
    (load binding map).Shows
      ((map.set? binding.name).getD []) := by
  intro item
  refine mem_storedItems_iff.trans ?_
  simp [load]

namespace Shows

variable {set : SetHandle} {members : Members}

/- An item that is added will be stored. -/
theorem add
    (hShows : set.Shows members)
    (item : Bytes) :
    (set.add item).Shows members := by
  unfold SetHandle.add
  split
  · exact hShows
  · rename_i hNew
    intro other
    simp only [Bool.or_eq_true, List.isEmpty_iff, not_or]
      at hNew
    simp only [List.mem_append, List.mem_singleton,
      List.mem_filter, hShows other]
    by_cases hOther : other = item
    · subst hOther
      simp [hNew.1]
    · simp [hOther]

/- An item that is removed will not be stored. -/
theorem remove
    (hShows : set.Shows members)
    (item : Bytes) :
    (set.remove item).Shows members := by
  intro other
  simp only [SetHandle.remove, List.mem_append,
    List.mem_singleton, List.mem_filter, hShows other]
  by_cases hOther : other = item
  · simp [hOther]
  · simp [hOther]

end Shows

end SetHandle

/- A set that was sent shows what is stored, in its order. -/
theorem HandleKind.Sent.set
    {before after : Store}
    {old new : SetHandle}
    (hSent : HandleKind.set.Sent before after old new) :
    let path := old.binding.path
    let name := old.binding.name
    (new.binding.path = path ∧ new.binding.name = name ∧
      new.binding.context ≠ []) ∧
    new.adds = [] ∧
    new.removes = [] ∧
    new.items =
      (after.members path name).filter (!·.isEmpty) ∧
    ∀ item,
      item ∈ after.members path name ↔
        (item ∈ before.members path name ∧
          item ∉ old.removes) ∨
        item ∈ old.adds := by
  intro path name
  rcases hSent.exists_answer
    with ⟨document, map, context, hMap, hLeaf, hContext, hNew⟩
  have hItems :
      new.items = SetHandle.storedItems map name := by
    have hFound :
        (some document).bind old.binding.mapIn? = some map :=
      hMap
    rw [hNew]
    exact SetHandle.items_received hFound context
  have hMembers :
      (map.set? name).getD [] = after.members path name := by
    have hEntry := congrArg CrdtMap.Entry.set hLeaf
    exact congrArg (·.getD []) hEntry.symm
  refine ⟨⟨hNew ▸ rfl, hNew ▸ rfl, ?_⟩, hNew ▸ rfl,
    hNew ▸ rfl, ?_, ?_⟩
  · have hEmpty : ¬context.isEmpty = true := by
      simpa using hContext
    rw [hNew]
    change (if context.isEmpty then _ else context) ≠ []
    rw [if_neg hEmpty]
    exact hContext
  · rw [hItems, SetHandle.storedItems, hMembers]
  · intro item
    have hSet := hSent.makes.set
    unfold Store.members
    rw [show (after.leaf path name).set = _ from hSet]
    exact Update.Entry.mem_newSet_iff rfl rfl

------------------------------------------------------------
-- Rounds
------------------------------------------------------------

/- The location that a command reads or changes. -/
def Store.target
    (newKey : Nat → String)
    (store : Store) : Command → Location
  | .fetch command => command.location
  | .change command =>
      command.location.keyed newKey store.issuedKeys
  | .delete command => command.location

namespace Store.Executes

variable {newKey : Nat → String} {store next : Store}
variable {command : Command}
variable {result : Except Abort (Except TransportError Response)}

/- A command changes the map of its location alone. -/
theorem find?_eq_of_target
    (hExecutes : Executes newKey store command result next)
    {other : Location}
    (hOther : other ≠ store.target newKey command) :
    find? next.objects other = find? store.objects other := by
  let history : History := ⟨fun _ => [], store.issuedKeys⟩
  have hTarget :
      history.location newKey command =
        store.target newKey command := by
    cases command <;> rfl
  exact hExecutes.find?_eq rfl (hTarget ▸ hOther)

/- A store can be read as long as no sum is out of range. -/
theorem readable
    (hExecutes : Executes newKey store command result next)
    (hReadable : store.poisoned = false)
    (hResult : result ≠ .error .overflow) :
    next.poisoned = false := by
  cases hExecutes with
  | refused _ error _ => exact hReadable
  | fetched _ _ => exact hReadable
  | deleted _ _ => exact hReadable
  | changed _ stored _ _ _ => exact hReadable
  | stopped _ reason _ _ hUpdated =>
      rw [StoredMap.update_eq_error hUpdated] at hResult
      exact absurd rfl hResult

end Store.Executes

/- What is done with a handle of a set, and around it. -/
inductive SetAction where
  | add (item : Bytes)
  | remove (item : Bytes)
  | send (config : Config)
  | execute (command : Command)

namespace SetHandle

/- One action, which may stop for good. -/
def step
    (newKey : Nat → String) :
    SetAction →
      Run (Store × SetHandle) (Except Error Unit)
  | .add item => do
      modify fun (store, set) => (store, set.add item)
      return .ok ()
  | .remove item => do
      modify fun (store, set) => (store, set.remove item)
      return .ok ()
  | .send config =>
      HandleKind.set.send ⟨Store.execute newKey, config⟩
  | .execute command => do
      let _ ← Run.onFirst (Store.execute newKey command)
      return .ok ()

/- The state after some actions. -/
def after
    (newKey : Nat → String)
    (start : Store × SetHandle)
    (actions : List SetAction) : Store × SetHandle :=
  Run.afterAll (step newKey) start actions

/- No other command reads or changes a location. -/
def Undisturbed
    (newKey : Nat → String)
    (location : Location) :
    Store × SetHandle → List SetAction → Prop
  | _, [] => True
  | state, action :: rest =>
      (∀ command,
        action = .execute command →
          state.1.target newKey command ≠ location) ∧
      Undisturbed newKey location
        ((step newKey action).run state).2 rest

/-
  The handle is valid and has a context, and it shows what
  is stored in a store that can be read.
-/
structure Follows
    (path : Path)
    (name : String)
    (state : Store × SetHandle) : Prop where
  readable : state.1.poisoned = false
  path_eq : state.2.binding.path = path
  name_eq : state.2.binding.name = name
  context : state.2.binding.context ≠ []
  shows : state.2.Shows (state.1.members path name)

variable {newKey : Nat → String} {state : Store × SetHandle}
variable {path : Path} {name : String}

/- A command at another location leaves a set as it is. -/
theorem Follows.execute
    (hFollows : Follows path name state)
    {command : Command}
    (hTarget :
      state.1.target newKey command ≠ path.location)
    (hResult :
      state.1.result newKey command ≠ .error .overflow) :
    Follows path name
      (state.1.next newKey command, state.2) := by
  have hExecutes := state.1.executes newKey command
  have hReadable :=
    hExecutes.readable hFollows.readable hResult
  have hFind :
      Store.find? (state.1.next newKey command).objects
          path.location =
        Store.find? state.1.objects path.location :=
    hExecutes.find?_eq_of_target (Ne.symm hTarget)
  refine
    ⟨hReadable, hFollows.path_eq, hFollows.name_eq,
      hFollows.context, ?_⟩
  have hMembers :
      (state.1.next newKey command).members path name =
        state.1.members path name := by
    rw [Store.members, Store.members,
      Store.leaf_of_readable hReadable, hFind,
      Store.leaf_of_readable hFollows.readable]
  rw [hMembers]
  exact hFollows.shows

/- A set that was sent is shown as it is stored. -/
theorem Follows.sent
    (hFollows : Follows path name state)
    {store : Store}
    {set : SetHandle}
    (hSent :
      HandleKind.set.Sent state.1 store state.2 set) :
    Follows path name (store, set) := by
  rcases hSent.set
    with ⟨⟨hPath, hName, hContext⟩, hAdds, hRemoves, hItems,
      hMembers⟩
  rw [hFollows.path_eq, hFollows.name_eq] at hItems
  refine
    ⟨hSent.readable, hPath.trans hFollows.path_eq,
      hName.trans hFollows.name_eq, hContext, ?_⟩
  intro item
  rw [hItems, hAdds, hRemoves, List.mem_filter]
  simp [and_comm]

/- A set is sent, as long as no sum is out of range. -/
theorem Follows.exists_sent
    (hFollows : Follows path name state)
    (hName : name ≠ "")
    (hLocation : path.location.IsComplete)
    {config : Config}
    (hResult :
      ((step newKey (.send config)).run state).1 ≠
        .error .overflow) :
    ∃ store set,
      (step newKey (.send config)).run state =
        (.ok (.ok ()), (store, set)) ∧
      HandleKind.set.Sent state.1 store state.2 set := by
  have hValid : state.2.binding.IsValid := by
    constructor
    · rw [hFollows.name_eq]
      exact hName
    · rw [hFollows.path_eq]
      exact hLocation
  rcases HandleKind.set.sent_or_stopped hFollows.readable
    hValid (fun _ => hFollows.context) newKey config
    with hSent | ⟨store, hStopped⟩
  · exact hSent
  · exact absurd (congrArg Prod.fst hStopped) hResult

/- An action keeps this, unless another disturbs the set. -/
theorem Follows.step
    (hFollows : Follows path name state)
    (hName : name ≠ "")
    (hLocation : path.location.IsComplete)
    {action : SetAction}
    (hTarget :
      ∀ command,
        action = .execute command →
          state.1.target newKey command ≠ path.location)
    (hResult :
      ((SetHandle.step newKey action).run state).1 ≠
        .error .overflow) :
    Follows path name
      ((SetHandle.step newKey action).run state).2 := by
  cases action with
  | add item =>
      have hBinding :
          (state.2.add item).binding = state.2.binding := by
        unfold SetHandle.add
        split <;> rfl
      have hAdded : Follows path name
          (state.1, state.2.add item) := by
        refine
          ⟨hFollows.readable, ?_, ?_, ?_,
            hFollows.shows.add item⟩
        · exact hBinding ▸ hFollows.path_eq
        · exact hBinding ▸ hFollows.name_eq
        · exact hBinding ▸ hFollows.context
      exact hAdded
  | remove item =>
      exact
        ⟨hFollows.readable, hFollows.path_eq,
          hFollows.name_eq, hFollows.context,
          hFollows.shows.remove item⟩
  | send config =>
      rcases hFollows.exists_sent hName hLocation hResult
        with ⟨store, set, hRun, hSent⟩
      rw [hRun]
      exact hFollows.sent hSent
  | execute command =>
      have hRun :
          (SetHandle.step newKey (.execute command)).run
              state =
            ((state.1.result newKey command).map
                fun _ => .ok (),
              (state.1.next newKey command, state.2)) := by
        have hFirst :
            (Run.onFirst (Store.execute newKey command)).run
                state =
              (state.1.result newKey command,
                state.1.next newKey command, state.2) := by
          rfl
        rw [SetHandle.step, Run.run_bind, hFirst]
        cases state.1.result newKey command <;> rfl
      rw [hRun] at hResult ⊢
      refine hFollows.execute (hTarget command rfl) ?_
      intro hOverflow
      rw [hOverflow] at hResult
      exact hResult rfl

/- Actions keep this, unless another disturbs the set. -/
theorem Follows.after
    {start : Store × SetHandle}
    (hFollows : Follows path name start)
    (hName : name ≠ "")
    (hLocation : path.location.IsComplete)
    {actions : List SetAction}
    (hUndisturbed :
      Undisturbed newKey path.location start actions)
    (hOverflows :
      ¬Run.Overflows (SetHandle.step newKey) start actions) :
    Follows path name
      (SetHandle.after newKey start actions) := by
  induction actions generalizing start with
  | nil => exact hFollows
  | cons action rest ih =>
      rw [Run.Overflows, not_or] at hOverflows
      exact
        ih
          (hFollows.step hName hLocation hUndisturbed.1
            hOverflows.1)
          hUndisturbed.2 hOverflows.2

------------------------------------------------------------
-- Fetched Sets
------------------------------------------------------------

/- The handle of a set in a map that was fetched. -/
def ofFetched
    (location : Location)
    (segments : List String)
    (name : String)
    (response : Fetched) : SetHandle :=
  load ⟨⟨location, segments⟩, name, response.context⟩
    (response.map.reach segments)

/- It is what a document with nothing but the set reads. -/
theorem decodeDocument_eq_ofFetched
    (location : Location)
    (segments : List String)
    (field name : String)
    (response : Fetched)
    (old : Slot .set) :
    let schema : Schema := .stored field name (.slot .set) .nil
    schema.decodeDocument response.map response.context
        ⟨location, segments⟩ (old, ()) =
      (.ok (),
        (some (ofFetched location segments name response),
          ())) := by
  rfl

/- It shows what is stored. -/
theorem follows_ofFetched
    {before after : Store}
    {command : Fetch}
    {response : Fetched}
    (hFetch :
      (Store.execute newKey (.fetch command)).Yields before
        (.ok (.fetched response)) after)
    (hFound : response.notFound = false)
    (segments : List String)
    (name : String) :
    Follows ⟨command.location, segments⟩ name
      (after,
        ofFetched command.location segments name
          response) := by
  cases hPoisoned : before.poisoned with
  | true =>
      rcases Store.execute_poisoned hPoisoned (.fetch command)
        with ⟨error, hError⟩
      rw [Run.Yields, hError] at hFetch
      cases hFetch
  | false =>
      rw [Run.Yields, Store.execute_fetch hPoisoned] at hFetch
      cases hFetch
      cases hFind :
          Store.find? before.objects command.location with
      | none =>
          rw [hFind] at hFound
          cases hFound
      | some stored =>
          refine ⟨hPoisoned, rfl, rfl, ?_, ?_⟩
          · exact stored.context_ne_nil
          · have hMembers :
                (before.logging (.fetch command)).members
                    ⟨command.location, segments⟩ name =
                  ((stored.map.reach segments).set?
                    name).getD [] := by
              rw [Store.members, Store.leaf_of_readable
                (show (before.logging _).poisoned = false
                  from hPoisoned)]
              change (((Store.find? before.objects
                command.location).getD .new).map.leaf _
                  _).set.getD [] = _
              rw [hFind]
              rfl
            rw [hMembers]
            exact shows_load _ _

/-
  A handle that was sent shows the same items as before.
  They are those that are stored, in the stored order, and
  nothing is unsent.
-/
structure Settles
    (path : Path)
    (name : String)
    (before after : Store × SetHandle) : Prop where
  items_kept :
    ∀ item, item ∈ after.2.items ↔ item ∈ before.2.items
  items_stored :
    ∀ item,
      item ∈ after.2.items ↔
        item ∈ after.1.members path name ∧ item ≠ []
  items_order :
    after.2.items =
      (after.1.members path name).filter (!·.isEmpty)
  adds_sent : after.2.adds = []
  removes_sent : after.2.removes = []

/- A handle that shows what is stored settles once sent. -/
theorem Follows.settles
    (hFollows : Follows path name state)
    {store : Store}
    {set : SetHandle}
    (hSent :
      HandleKind.set.Sent state.1 store state.2 set) :
    Settles path name state (store, set) := by
  rcases hSent.set
    with ⟨_, hAdds, hRemoves, hItems, hMembers⟩
  rw [hFollows.path_eq, hFollows.name_eq] at hItems hMembers
  have hStored :
      ∀ item,
        item ∈ set.items ↔
          item ∈ store.members path name ∧ item ≠ [] := by
    intro item
    rw [hItems, List.mem_filter]
    simp
  refine ⟨?_, hStored, hItems, hAdds, hRemoves⟩
  intro item
  rw [hStored, hMembers, hFollows.shows item, and_comm]

/-
  However often items are added to the handle of a fetched
  set and removed from it, it is sent without error and
  settles, as long as no other command disturbs the set and
  no sum is out of range.
-/
theorem settles_of_send
    {newKey : Nat → String}
    {first store : Store}
    {command : Fetch}
    {response : Fetched}
    (hFetch :
      (Store.execute newKey (.fetch command)).Yields first
        (.ok (.fetched response)) store)
    (hFound : response.notFound = false)
    (hLocation : command.location.IsComplete)
    (segments : List String)
    {name : String}
    (hName : name ≠ "")
    (rounds : List SetAction)
    (config : Config) :
    let start :=
      (store,
        ofFetched command.location segments name response)
    Undisturbed newKey command.location start rounds →
    ¬Run.Overflows (step newKey) start
        (rounds ++ [.send config]) →
    ((step newKey (.send config)).run
        (after newKey start rounds)).1 = .ok (.ok ()) ∧
    Settles ⟨command.location, segments⟩ name
      (after newKey start rounds)
      (after newKey start (rounds ++ [.send config])) := by
  intro start hUndisturbed hOverflows
  have hStart :=
    follows_ofFetched hFetch hFound segments name
  have hRounds := hOverflows
  rw [Run.overflows_append_iff, not_or, Run.Overflows, not_or]
    at hRounds
  have hBefore :=
    hStart.after hName hLocation hUndisturbed hRounds.1
  rcases hBefore.exists_sent hName hLocation hRounds.2.1
    with ⟨last, set, hRun, hSent⟩
  have hAfter :
      after newKey start (rounds ++ [.send config]) =
        (last, set) := by
    rw [after, Run.afterAll_append]
    exact congrArg Prod.snd hRun
  rw [hAfter]
  refine ⟨congrArg Prod.fst hRun, hBefore.settles hSent⟩

/- A set within a missing map is made and emptied by turns. -/
theorem settles_of_send_within :
    let newKey (_ : Nat) := "new"
    let location : Location := ⟨"b", "t", "k"⟩
    let making : Change :=
      ⟨location, { Update.empty with flags := [("f", true)] },
        none, false, .unset⟩
    let first := Store.empty.next newKey (.change making)
    let command : Fetch := ⟨location, .unset⟩
    let response : Fetched :=
      ⟨{ CrdtMap.empty with flags := [("f", true)] },
        Bytes.bigEndian 8 1, false⟩
    let store := first.logging (.fetch command)
    let rounds : List SetAction :=
      [.add [1], .add [], .add [1], .send .unset, .remove [1],
        .remove [], .execute (.delete ⟨⟨"b", "t", "l"⟩,
          .unset⟩)]
    let start :=
      (store, ofFetched location ["m"] "s" response)
    ((Store.execute newKey (.fetch command)).Yields first
        (.ok (.fetched response)) store ∧
      response.notFound = false ∧
      location.IsComplete ∧ "s" ≠ "" ∧
      Undisturbed newKey location start rounds ∧
      ¬Run.Overflows (step newKey) start
          (rounds ++ [.send .unset])) ∧
    ((step newKey (.send .unset)).run
        (after newKey start rounds)).1 = .ok (.ok ()) ∧
    Settles ⟨location, ["m"]⟩ "s"
      (after newKey start rounds)
      (after newKey start (rounds ++ [.send .unset])) := by
  intro newKey location making first command response store
    rounds start
  have hFetch :
      (Store.execute newKey (.fetch command)).Yields first
        (.ok (.fetched response)) store := by
    rfl
  have hLocation : location.IsComplete := by
    decide
  have hName : "s" ≠ "" := by
    decide
  have hUndisturbed :
      Undisturbed newKey location start rounds := by
    refine ⟨?_, ?_, ?_, ?_, ?_, ?_, ?_, trivial⟩ <;>
      (intro other hOther; cases hOther)
    change (⟨"b", "t", "l"⟩ : Location) ≠ ⟨"b", "t", "k"⟩
    decide
  have hOverflows :
      ¬Run.Overflows (step newKey) start
          (rounds ++ [.send .unset]) := by
    decide +kernel
  exact
    ⟨⟨hFetch, rfl, hLocation, hName, hUndisturbed,
      hOverflows⟩,
      settles_of_send hFetch rfl hLocation ["m"] hName rounds
        .unset hUndisturbed hOverflows⟩

/-
  A sum out of range at another location leaves the store
  poisoned, and then no set is sent.
-/
theorem refused_after_overflow_elsewhere :
    let newKey (_ : Nat) := "new"
    let location : Location := ⟨"b", "t", "k"⟩
    let making : Change :=
      ⟨location, { Update.empty with flags := [("f", true)] },
        none, false, .unset⟩
    let first := Store.empty.next newKey (.change making)
    let command : Fetch := ⟨location, .unset⟩
    let response : Fetched :=
      ⟨{ CrdtMap.empty with flags := [("f", true)] },
        Bytes.bigEndian 8 1, false⟩
    let store := first.logging (.fetch command)
    let greatest : Integer .i64 :=
      ⟨9223372036854775807, by decide, by decide⟩
    let count : Change :=
      ⟨⟨"b", "t", "l"⟩,
        { Update.empty with counters := [("n", greatest)] },
        none, false, .unset⟩
    let rounds : List SetAction :=
      [.execute (.change count), .execute (.change count),
        .add [1]]
    let start :=
      (store, ofFetched location [] "s" response)
    (Store.execute newKey (.fetch command)).Yields first
      (.ok (.fetched response)) store ∧
    location.IsComplete ∧
    Undisturbed newKey location start rounds ∧
    ((step newKey (.send .unset)).run
        (after newKey start rounds)).1 =
      .ok (.error (.transport Store.poisonedError)) := by
  intro newKey location making first command response store
    greatest count rounds start
  have hElsewhere :
      (⟨"b", "t", "l"⟩ : Location) ≠ ⟨"b", "t", "k"⟩ := by
    decide
  have hUndisturbed :
      Undisturbed newKey location start rounds := by
    refine ⟨?_, ?_, ?_, trivial⟩ <;>
      (intro other hOther; cases hOther)
    · exact hElsewhere
    · exact hElsewhere
  have hRefused :
      ((step newKey (.send .unset)).run
          (after newKey start rounds)).1 =
        .ok (.error (.transport Store.poisonedError)) := by
    decide +kernel
  exact ⟨rfl, by decide, hUndisturbed, hRefused⟩

end SetHandle

end CrdtDoc
