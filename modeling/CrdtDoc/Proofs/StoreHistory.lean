import CrdtDoc.Proofs.Sequencing
import CrdtDoc.Proofs.StoreCommands

/-
  This file defines the history of a store: the updates that
  each location accepted since its map was last deleted.  As
  long as no update stops, a store is exactly its history;
  and once one did, nothing of the store is seen any more.

  Key definitions include:
    * `Update.madeMap`
    * `History`
    * `History.record`
    * `History.Answers`
    * `History.Overflows`
    * `Action`
    * `Store.Stops`
    * `Store.Represents`

  Main declarations:
    * `Store.Executes.represents`
    * `Store.represents_after`
    * `Store.poisoned_of_stops`
    * `Store.follows_history`
-/

namespace CrdtDoc

------------------------------------------------------------
-- Histories
------------------------------------------------------------

/- The map that some updates make out of nothing. -/
def Update.madeMap
    (updates : List Update) : Except Abort CrdtMap :=
  updates.foldlM (fun map update => update.apply map) .empty

/-
  The updates that each location accepted since its map was
  last deleted, and the number of keys issued.
-/
structure History where
  updates : Location → List Update
  issuedKeys : Nat

namespace History

/- The history before any command. -/
def start : History :=
  ⟨fun _ => [], 0⟩

/- The location that a command is about, with a new key. -/
def location
    (newKey : Nat → String)
    (history : History) : Command → Location
  | .fetch command => command.location
  | .change command =>
      command.location.keyed newKey history.issuedKeys
  | .delete command => command.location

/- The history with updates of one location replaced. -/
def replace
    (history : History)
    (location : Location)
    (updates : List Update) : History :=
  { history with
    updates := fun other =>
      if other = location then updates
      else history.updates other }

/-
  The history after a command: accepted updates come behind
  those before, and a deletion forgets them all.
-/
def record
    (newKey : Nat → String)
    (history : History) : Command → History
  | .fetch _ => history
  | .change command =>
      if Store.Accepts command then
        let location :=
          command.location.keyed newKey history.issuedKeys
        { history.replace location
            (history.updates location ++ [command.update]) with
          issuedKeys :=
            command.location.issuedAfter history.issuedKeys }
      else history
  | .delete command => history.replace command.location []

/-
  The answer to a fetch that a history stands for: the map
  that the updates make out of nothing, and their number.
-/
def Answers
    (history : History)
    (location : Location)
    (response : Fetched) : Prop :=
  (response.notFound = true ↔
    history.updates location = []) ∧
  (response.notFound = false →
    Update.madeMap (history.updates location) =
      .ok response.map ∧
    response.context =
      Bytes.bigEndian 8 (history.updates location).length)

/-
  Are sums of an update out of range?  These are amounts of
  the map, or the number of its updates.
-/
def Overflows
    (newKey : Nat → String)
    (history : History)
    (command : Change) : Prop :=
  let updates :=
    history.updates
      (command.location.keyed newKey history.issuedKeys)
  Update.madeMap (updates ++ [command.update]) =
    .error .overflow ∨
  IntType.greatest .u64 < updates.length + 1

end History

------------------------------------------------------------
-- Runs
------------------------------------------------------------

/- What is done with a store from outside. -/
inductive Action where
  | send (command : Command)
  | takeLog

namespace Store

/- The store after one action. -/
def step
    (newKey : Nat → String)
    (store : Store) : Action → Store
  | .send command => store.next newKey command
  | .takeLog => store.takeLog.2

/- The store after several actions. -/
def after
    (newKey : Nat → String)
    (store : Store)
    (actions : List Action) : Store :=
  actions.foldl (step newKey) store

/- Does one of several actions stop? -/
def Stops
    (newKey : Nat → String) : Store → List Action → Prop
  | _, [] => False
  | store, action :: rest =>
      (∃ command reason,
        action = .send command ∧
        store.result newKey command = .error reason) ∨
      Stops newKey (store.step newKey action) rest

end Store

namespace History

/- The history after one action. -/
def step
    (newKey : Nat → String)
    (history : History) : Action → History
  | .send command => history.record newKey command
  | .takeLog => history

/- The history after several actions. -/
def after
    (newKey : Nat → String)
    (history : History)
    (actions : List Action) : History :=
  actions.foldl (step newKey) history

end History

/- The commands sent since the log was last taken. -/
def Action.logged
    (log : List Command) : List Action → List Command
  | [] => log
  | .send command :: rest => logged (log ++ [command]) rest
  | .takeLog :: rest => logged [] rest

------------------------------------------------------------
-- Representation
------------------------------------------------------------

/- A map was made out of nothing by given updates. -/
def StoredMap.MadeBy : Option StoredMap → List Update → Prop
  | none, updates => updates = []
  | some stored, updates =>
      updates ≠ [] ∧
      Update.madeMap updates = .ok stored.map ∧
      stored.version.toInt = updates.length

/- The maps of a store are those that a history made. -/
structure Store.Represents
    (store : Store)
    (history : History) : Prop where
  readable : store.poisoned = false
  issuedKeys : store.issuedKeys = history.issuedKeys
  objects :
    ∀ location,
      StoredMap.MadeBy (Store.find? store.objects location)
        (history.updates location)

------------------------------------------------------------
-- Single Updates
------------------------------------------------------------

/- Amounts that cannot be added are out of range. -/
theorem Update.addAmounts_eq_error
    {counters amounts : Entries (Integer .i64)}
    {reason : Abort}
    (hError : addAmounts counters amounts = .error reason) :
    reason = .overflow := by
  unfold addAmounts at hError
  induction amounts generalizing counters with
  | nil => cases hError
  | cons entry rest ih =>
      rw [List.foldlM_cons, bind_eq_error_iff] at hError
      rcases hError with hFirst | ⟨middle, _, hRest⟩
      · simp only at hFirst
        split at hFirst
        · cases hFirst
          rfl
        · cases hFirst
      · exact ih hRest

mutual
/- An update that cannot be made has sums out of range. -/
theorem Update.apply_eq_error :
    (update : Update) → {map : CrdtMap} → {reason : Abort} →
      update.apply map = .error reason → reason = .overflow
  | ⟨_, _, _, _, _, maps⟩, map, _, hError => by
      rw [apply, bind_eq_error_iff] at hError
      rcases hError with hSums | ⟨_, _, hError⟩
      · exact addAmounts_eq_error hSums
      · rw [bind_eq_error_iff] at hError
        rcases hError with hMaps | ⟨_, _, hDone⟩
        · exact applyAll_eq_error maps hMaps
        · cases hDone

/- Updates of maps that cannot be made are the same. -/
theorem Update.applyAll_eq_error :
    (updates : List (String × Update)) →
      {maps : List (String × CrdtMap)} → {reason : Abort} →
      applyAll updates maps = .error reason →
      reason = .overflow
  | [], _, _, hError => by
      cases hError
  | (_, update) :: rest, _, _, hError => by
      rw [applyAll, bind_eq_error_iff] at hError
      rcases hError with hFirst | ⟨_, _, hRest⟩
      · exact update.apply_eq_error hFirst
      · exact applyAll_eq_error rest hRest
end

namespace StoredMap

/- The map after an update is what the update made of it. -/
theorem apply_of_update
    {before after : StoredMap}
    {update : Update}
    (hUpdate : before.update update = .ok after) :
    update.apply before.map = .ok after.map := by
  rcases bind_eq_ok_iff.mp hUpdate with ⟨map, hMap, hVersion⟩
  split at hVersion
  · cases hVersion
  · cases hVersion
    exact hMap

variable {before : Option StoredMap} {updates : List Update}

/- A map that is not there was made by no update. -/
theorem MadeBy.getD
    (hBefore : MadeBy before updates) :
    Update.madeMap updates = .ok (before.getD .new).map ∧
    (before.getD .new).version.toInt = updates.length := by
  cases before with
  | none =>
      rw [show updates = [] from hBefore]
      exact ⟨rfl, rfl⟩
  | some old => exact hBefore.2

/- One more update is made to what the others made. -/
theorem MadeBy.madeMap_append
    (hBefore : MadeBy before updates)
    (update : Update) :
    Update.madeMap (updates ++ [update]) =
      update.apply (before.getD .new).map := by
  have hMap := hBefore.getD.1
  unfold Update.madeMap at hMap ⊢
  rw [List.foldlM_append, hMap]
  have hOne :
      [update].foldlM (fun map update => update.apply map)
          (before.getD .new).map =
        update.apply (before.getD .new).map := by
    rw [List.foldlM_cons]
    cases update.apply (before.getD .new).map <;> rfl
  exact hOne

/- One more update counts as one more. -/
theorem MadeBy.append
    (hBefore : MadeBy before updates)
    {update : Update}
    {stored : StoredMap}
    (hUpdate : (before.getD .new).update update = .ok stored) :
    MadeBy (some stored) (updates ++ [update]) := by
  have hMade := hBefore.madeMap_append update
  have hLength := hBefore.getD.2
  rw [StoredMap.update, bind_eq_ok_iff] at hUpdate
  rcases hUpdate with ⟨map, hMap, hVersion⟩
  split at hVersion
  · cases hVersion
  · rename_i version hSum
    cases hVersion
    refine ⟨?_, hMade.trans hMap, ?_⟩
    · exact List.append_ne_nil_of_right_ne_nil _
        (List.cons_ne_nil _ _)
    · rw [Integer.add?, Integer.ofInt?_eq_some_iff] at hSum
      rw [List.length_append, List.length_singleton]
      simp only at hSum ⊢
      omega

/- An update stops if and only if sums are out of range. -/
theorem MadeBy.update_eq_error_iff
    (hBefore : MadeBy before updates)
    {update : Update}
    {reason : Abort} :
    (before.getD .new).update update = .error reason ↔
      reason = .overflow ∧
      (Update.madeMap (updates ++ [update]) =
        .error .overflow ∨
      IntType.greatest .u64 < updates.length + 1) := by
  have hLength := hBefore.getD.2
  rw [hBefore.madeMap_append update, StoredMap.update,
    bind_eq_error_iff]
  constructor
  · rintro (hApply | ⟨map, _, hVersion⟩)
    · have hReason := update.apply_eq_error hApply
      subst hReason
      exact ⟨rfl, Or.inl hApply⟩
    · split at hVersion
      · rename_i hSum
        cases hVersion
        refine ⟨rfl, Or.inr ?_⟩
        rw [Integer.add?, Integer.ofInt?_eq_none_iff] at hSum
        simp only [IntType.least] at hSum
        omega
      · cases hVersion
  · rintro ⟨hReason, hOverflows⟩
    subst hReason
    cases hApply :
        update.apply (before.getD .new).map with
    | error reason =>
        have hReason := update.apply_eq_error hApply
        subst hReason
        exact Or.inl rfl
    | ok map =>
        refine Or.inr ⟨map, rfl, ?_⟩
        rcases hOverflows with hError | hGreatest
        · rw [hApply] at hError
          cases hError
        · split
          · rfl
          · rename_i version hSum
            rw [Integer.add?, Integer.ofInt?_eq_some_iff]
              at hSum
            have hRange := version.le_greatest
            simp only at hSum
            omega

end StoredMap

namespace Store

variable {newKey : Nat → String} {store : Store}
variable {history : History}

/- A store without maps is the start of a history. -/
theorem represents_start :
    Represents .empty .start :=
  ⟨rfl, rfl, fun _ => rfl⟩

/- What a fetch is answered is what the history stands for. -/
theorem answers_fetched
    (hRepresents : store.Represents history)
    (location : Location) :
    history.Answers location
      (fetched (find? store.objects location)) := by
  have hMade := hRepresents.objects location
  cases hFind : find? store.objects location with
  | none =>
      rw [hFind] at hMade
      refine ⟨iff_of_true rfl hMade, ?_⟩
      intro hFound
      cases hFound
  | some stored =>
      rw [hFind] at hMade
      rcases hMade with ⟨hUpdates, hMap, hVersion⟩
      constructor
      · refine iff_of_false ?_ hUpdates
        intro hFound
        cases hFound
      · intro _
        refine ⟨hMap, ?_⟩
        change Bytes.bigEndian 8 stored.version.toInt.toNat = _
        rw [hVersion, Int.toNat_natCast]

/-
  A command that comes to an answer keeps a store what its
  history says.
-/
theorem Executes.represents
    {command : Command}
    {answer : Except TransportError Response}
    {next : Store}
    (hExecutes :
      Executes newKey store command (.ok answer) next)
    (hRepresents : store.Represents history) :
    next.Represents (history.record newKey command) := by
  rcases hRepresents with ⟨hReadable, hIssued, hObjects⟩
  cases hExecutes with
  | refused _ error hRefused =>
      rcases hRefused
        with hPoisoned | ⟨update, hCommand, hAccepts⟩
      · rw [hReadable] at hPoisoned
        cases hPoisoned
      · subst hCommand
        rw [History.record, if_neg hAccepts]
        exact ⟨hReadable, hIssued, hObjects⟩
  | fetched command _ => exact ⟨hReadable, hIssued, hObjects⟩
  | deleted command _ =>
      refine ⟨hReadable, hIssued, ?_⟩
      intro location
      simp only [History.record, History.replace,
        find?_remove]
      split
      · rfl
      · exact hObjects location
  | changed command stored _ hAccepts hUpdated =>
      rw [History.record, if_pos hAccepts]
      refine ⟨hReadable, ?_, ?_⟩
      · exact congrArg command.location.issuedAfter hIssued
      · intro location
        have hStored := (hObjects _).append hUpdated
        simp only [History.replace, find?_put, ← hIssued]
        split
        · exact hStored
        · exact hObjects location

/- A command that stops leaves the store poisoned. -/
theorem Executes.poisoned_of_error
    {command : Command}
    {reason : Abort}
    {next : Store}
    (hExecutes :
      Executes newKey store command (.error reason) next) :
    next.poisoned = true := by
  cases hExecutes with
  | stopped command _ _ _ _ => rfl

/- A command leaves the maps of other locations alone. -/
theorem Executes.find?_eq
    {command : Command}
    {result : Except Abort (Except TransportError Response)}
    {next : Store}
    (hExecutes : Executes newKey store command result next)
    (hIssued : store.issuedKeys = history.issuedKeys)
    {other : Location}
    (hOther : other ≠ history.location newKey command) :
    find? next.objects other = find? store.objects other := by
  cases hExecutes with
  | refused _ error hRefused => rfl
  | fetched command _ => rfl
  | deleted command _ =>
      simp only [find?_remove]
      exact if_neg hOther
  | changed command stored _ _ _ =>
      simp only [find?_put, hIssued]
      exact if_neg hOther
  | stopped command reason _ _ _ => rfl

/- Every command is logged, whatever it comes to. -/
theorem Executes.log_eq
    {command : Command}
    {result : Except Abort (Except TransportError Response)}
    {next : Store}
    (hExecutes : Executes newKey store command result next) :
    next.log = store.log ++ [command] := by
  cases hExecutes with
  | refused _ error hRefused => rfl
  | fetched command _ => rfl
  | deleted command _ => rfl
  | changed command stored _ _ _ => rfl
  | stopped command reason _ _ _ => rfl

/- A poisoned store stays poisoned. -/
theorem next_poisoned
    (hPoisoned : store.poisoned = true)
    (command : Command) :
    (store.next newKey command).poisoned = true := by
  rcases @execute_poisoned newKey store hPoisoned command
    with ⟨error, hExecute⟩
  rw [next, hExecute]
  exact hPoisoned

------------------------------------------------------------
-- Whole Runs
------------------------------------------------------------

/- A store poisoned before some actions is so after them. -/
theorem after_poisoned
    (hPoisoned : store.poisoned = true)
    (actions : List Action) :
    (store.after newKey actions).poisoned = true := by
  unfold after
  induction actions generalizing store with
  | nil => exact hPoisoned
  | cons action rest ih =>
      rw [List.foldl_cons]
      apply ih
      cases action with
      | send command => exact next_poisoned hPoisoned command
      | takeLog => exact hPoisoned

/- Actions one of which stops leave the store poisoned. -/
theorem poisoned_of_stops
    {actions : List Action}
    (hStops : Stops newKey store actions) :
    (store.after newKey actions).poisoned = true := by
  induction actions generalizing store with
  | nil => exact hStops.elim
  | cons action rest ih =>
      rcases hStops
        with ⟨command, reason, hAction, hResult⟩ | hRest
      · subst hAction
        have hExecutes := executes newKey store command
        rw [hResult] at hExecutes
        exact after_poisoned hExecutes.poisoned_of_error rest
      · exact ih hRest

/- Actions none of which stops follow the history. -/
theorem represents_after
    (hRepresents : store.Represents history)
    {actions : List Action}
    (hStops : ¬Stops newKey store actions) :
    (store.after newKey actions).Represents
      (history.after newKey actions) := by
  unfold after History.after
  induction actions generalizing store history with
  | nil => exact hRepresents
  | cons action rest ih =>
      rcases not_or.mp hStops with ⟨hFirst, hRest⟩
      rw [List.foldl_cons, List.foldl_cons]
      apply ih _ hRest
      cases action with
      | takeLog =>
          exact ⟨hRepresents.readable, hRepresents.issuedKeys,
            hRepresents.objects⟩
      | send command =>
          have hExecutes := executes newKey store command
          cases hResult : store.result newKey command with
          | error reason =>
              exact absurd ⟨command, reason, rfl, hResult⟩
                hFirst
          | ok answer =>
              rw [hResult] at hExecutes
              exact hExecutes.represents hRepresents

/- The log has what was sent since it was last taken. -/
theorem log_after
    (actions : List Action) :
    (store.after newKey actions).log =
      Action.logged store.log actions := by
  unfold after
  induction actions generalizing store with
  | nil => rfl
  | cons action rest ih =>
      rw [List.foldl_cons, ih]
      cases action with
      | takeLog => rfl
      | send command =>
          rw [step, (executes newKey store command).log_eq]
          rfl

/-
  A store does what its history says.  A fetch is answered
  by the updates, an accepted update by those with itself,
  with the key that was issued for it, and no command touches
  the map of another location.  A command stops if and only
  if it is an accepted update with sums out of range.
-/
structure Follows
    (newKey : Nat → String)
    (store : Store)
    (history : History) : Prop where
  fetch :
    ∀ command : Fetch, ∃ response,
      store.result newKey (.fetch command) =
        .ok (.ok (.fetched response)) ∧
      history.Answers command.location response
  change :
    ∀ command answer,
      Accepts command →
      store.result newKey (.change command) = .ok answer →
      ∃ response,
        (history.record newKey (.change command)).Answers
          (command.location.keyed newKey history.issuedKeys)
          response ∧
        answer =
          .ok (.changed
            ⟨command.location.generated? newKey
                history.issuedKeys,
              if command.returnBody then some response.map
              else none,
              response.context⟩)
  frame :
    ∀ command,
      ∀ other ≠ history.location newKey command,
        find? (store.next newKey command).objects other =
          find? store.objects other
  stop :
    ∀ command reason,
      store.result newKey command = .error reason ↔
        reason = .overflow ∧
        ∃ update,
          command = .change update ∧
          Accepts update ∧
          history.Overflows newKey update

/- Nothing of a store is seen from outside. -/
structure IsSilent
    (newKey : Nat → String)
    (store : Store) : Prop where
  answer :
    ∀ command, ∃ error,
      store.result newKey command = .ok (.error error)
  stored? : ∀ location, store.stored? location = none
  size : store.size = 0

/- A store that represents a history does what it says. -/
theorem Represents.follows
    (hRepresents : store.Represents history)
    (newKey : Nat → String) :
    store.Follows newKey history where
  fetch command := by
    refine ⟨_, ?_,
      answers_fetched hRepresents command.location⟩
    rw [result, execute_fetch hRepresents.readable]
  change command answer hAccepts hResult := by
    have hExecutes := executes newKey store (.change command)
    rw [hResult] at hExecutes
    have hNext := hExecutes.represents hRepresents
    have hAnswers :=
      answers_fetched hNext
        (command.location.keyed newKey store.issuedKeys)
    rw [← hRepresents.issuedKeys]
    generalize store.next newKey (.change command) = next
      at hExecutes hAnswers
    cases hExecutes with
    | refused _ error hRefused =>
        rcases hRefused
          with hPoisoned | ⟨update, hCommand, hNot⟩
        · rw [hRepresents.readable] at hPoisoned
          cases hPoisoned
        · cases hCommand
          exact absurd hAccepts hNot
    | changed _ stored _ _ _ =>
        rw [find?_put, if_pos rfl] at hAnswers
        exact ⟨_, hAnswers, rfl⟩
  frame command other hOther :=
    (executes newKey store command).find?_eq
      hRepresents.issuedKeys hOther
  stop command reason := by
    unfold History.Overflows
    rw [← hRepresents.issuedKeys]
    constructor
    · intro hResult
      have hExecutes := executes newKey store command
      rw [hResult] at hExecutes
      generalize store.next newKey command = next
        at hExecutes
      cases hExecutes with
      | stopped command _ _ hAccepts hUpdated =>
          rcases (hRepresents.objects _).update_eq_error_iff.mp
            hUpdated with ⟨hReason, hOverflows⟩
          exact ⟨hReason, command, rfl, hAccepts, hOverflows⟩
    · rintro ⟨hReason, update, hCommand, hAccepts, hOverflows⟩
      subst hCommand
      have hRefusal := refusal?_eq_none_iff.mpr hAccepts
      have hUpdated :=
        (hRepresents.objects _).update_eq_error_iff.mpr
          ⟨hReason, hOverflows⟩
      rw [result,
        execute_change hRepresents.readable hRefusal]
      simp only [hUpdated]

/- Nothing is seen of a poisoned store. -/
theorem isSilent_of_poisoned
    (hPoisoned : store.poisoned = true)
    (newKey : Nat → String) :
    store.IsSilent newKey where
  answer command := by
    rcases @execute_poisoned newKey store hPoisoned command
      with ⟨error, hExecute⟩
    refine ⟨error, ?_⟩
    rw [result, hExecute]
  stored? location := by
    rw [stored?, readable?, if_pos hPoisoned]
    rfl
  size := by
    rw [size, readable?, if_pos hPoisoned]
    rfl

/-
  A new store follows the history of what is done with it
  until an update stops, and is silent from then on.  An
  update that is refused is logged and changes nothing else,
  and the log has all that was sent since it was last taken.
-/
theorem follows_history
    (newKey : Nat → String)
    (actions : List Action) :
    let store := Store.empty.after newKey actions
    let history := History.start.after newKey actions
    (¬Stops newKey .empty actions →
      store.Follows newKey history) ∧
    (Stops newKey .empty actions →
      store.IsSilent newKey) ∧
    (∀ command,
      ¬Accepts command →
      ∃ error,
        (execute newKey (.change command)).run store =
          (.ok (.error error),
            store.logging (.change command))) ∧
    store.takeLog.1 = Action.logged [] actions := by
  intro store history
  refine ⟨?_, ?_, ?_, ?_⟩
  · intro hStops
    exact (represents_after represents_start hStops).follows
      newKey
  · intro hStops
    exact isSilent_of_poisoned (poisoned_of_stops hStops)
      newKey
  · intro command hAccepts
    rcases Option.ne_none_iff_exists'.mp
      (fun hNone =>
        hAccepts (refusal?_eq_none_iff.mp hNone))
      with ⟨error, hRefusal⟩
    exact ⟨error, execute_refused hRefusal⟩
  · exact log_after actions

/- The greatest amount can be added once, and then it stops. -/
example :
    let most : Integer .i64 :=
      ⟨2 ^ 63 - 1, by decide, by decide⟩
    let send : Action :=
      .send (.change
        { location := ⟨"b", "t", ""⟩
          update :=
            { Update.empty with counters := [("n", most)] }
          context := none
          returnBody := false
          options := default })
    let newKey : Nat → String := fun _ => "k"
    (Store.empty.after newKey [send]).poisoned = false ∧
    Stops newKey .empty [send, send] :=
  ⟨rfl, Or.inr (Or.inl ⟨_, .overflow, rfl, rfl⟩)⟩

end Store

end CrdtDoc
