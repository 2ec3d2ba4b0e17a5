import CrdtDoc.Proofs.Running
import CrdtDoc.Store

/-
  This file describes what a store does with each command:
  what it answers, and what it is afterwards.

  Key definitions include:
    * `Store.result`
    * `Store.next`
    * `Store.Accepts`
    * `Store.Executes`
    * `Location.keyed`

  Commands are described by:
    * `Store.execute_refused`
    * `Store.executes`
-/

namespace CrdtDoc

------------------------------------------------------------
-- Issued Keys
------------------------------------------------------------

namespace Location

/- The location of an update after some keys were issued. -/
def keyed
    (newKey : Nat → String)
    (issued : Nat)
    (location : Location) : Location :=
  if location.key = "" then location.withKey (newKey issued)
  else location

/- The key that an update is answered with, if it is new. -/
def generated?
    (newKey : Nat → String)
    (issued : Nat)
    (location : Location) : Option String :=
  if location.key = "" then some (newKey issued) else none

/- The number of keys issued after an update. -/
def issuedAfter
    (issued : Nat)
    (location : Location) : Nat :=
  if location.key = "" then issued + 1 else issued

end Location

namespace Store

variable {newKey : Nat → String} {store : Store}

------------------------------------------------------------
-- Results
------------------------------------------------------------

/- What a command comes to: an answer, or a stop. -/
def result
    (newKey : Nat → String)
    (store : Store)
    (command : Command) :
    Except Abort (Except TransportError Response) :=
  ((execute newKey command).run store).1

/- The store after a command. -/
def next
    (newKey : Nat → String)
    (store : Store)
    (command : Command) : Store :=
  ((execute newKey command).run store).2

/- The store after a command was logged. -/
def logging
    (store : Store)
    (command : Command) : Store :=
  { store with log := store.log ++ [command] }

/-
  Is an update accepted?  Its bucket and type are named, and
  it removes members only with a causal context.
-/
def Accepts
    (command : Change) : Prop :=
  command.location.bucket ≠ "" ∧
  command.location.bucketType ≠ "" ∧
  (command.context = none →
    command.update.removesMembers = false)

instance
    (command : Change) :
    Decidable (Accepts command) := by
  unfold Accepts
  infer_instance

/- An update is refused if it is not accepted. -/
theorem refusal?_eq_none_iff
    {command : Change} :
    refusal? command = none ↔ Accepts command := by
  unfold refusal? Accepts
  cases command.context <;>
    cases command.update.removesMembers <;>
    by_cases hBucket : command.location.bucket = "" <;>
    by_cases hType : command.location.bucketType = "" <;>
    simp [hBucket, hType]

------------------------------------------------------------
-- Commands
------------------------------------------------------------

/- A command is logged before it is answered. -/
theorem run_execute
    (command : Command) :
    (execute newKey command).run store =
      (answer newKey command).run (store.logging command) := by
  rw [execute, Run.run_bind]
  rfl

/- The maps are there unless the store is poisoned. -/
theorem run_unlocked
    (hPoisoned : store.poisoned = false) :
    unlocked.run store = (.ok (.ok store.objects), store) := by
  rcases store with ⟨objects, log, poisoned, issuedKeys⟩
  cases hPoisoned
  rfl

/- The maps of a poisoned store are not there. -/
theorem run_unlocked_poisoned
    (hPoisoned : store.poisoned = true) :
    unlocked.run store =
      (.ok (.error poisonedError), store) := by
  rcases store with ⟨objects, log, poisoned, issuedKeys⟩
  cases hPoisoned
  rfl

/- A fetch is answered, and changes nothing but the log. -/
theorem execute_fetch
    (hPoisoned : store.poisoned = false)
    (command : Fetch) :
    (execute newKey (.fetch command)).run store =
      (.ok (.ok (.fetched
          (fetched (find? store.objects command.location)))),
        store.logging (.fetch command)) := by
  rw [run_execute, answer, Run.run_bind,
    run_unlocked (show (store.logging _).poisoned = false
      from hPoisoned)]
  rfl

/- A deletion takes one map away. -/
theorem execute_delete
    (hPoisoned : store.poisoned = false)
    (command : Delete) :
    (execute newKey (.delete command)).run store =
      (.ok (.ok .deleted),
        { store.logging (.delete command) with
          objects :=
            remove store.objects command.location }) := by
  rw [run_execute, answer, Run.run_bind,
    run_unlocked (show (store.logging _).poisoned = false
      from hPoisoned)]
  rfl

/- An update that is refused changes nothing but the log. -/
theorem execute_refused
    {command : Change}
    {error : TransportError}
    (hRefusal : refusal? command = some error) :
    (execute newKey (.change command)).run store =
      (.ok (.error error),
        store.logging (.change command)) := by
  rw [run_execute, answer, change, hRefusal]
  rfl

/- What a poisoned store has against a command. -/
def poisonedAnswer : Command → TransportError
  | .change command => (refusal? command).getD poisonedError
  | _ => poisonedError

/-
  A poisoned store logs a command, and has the same answer to
  all of them but the updates that it refuses.
-/
theorem execute_poisoned_eq
    (hPoisoned : store.poisoned = true)
    (command : Command) :
    (execute newKey command).run store =
      (.ok (.error (poisonedAnswer command)),
        store.logging command) := by
  have hUnlocked :
      unlocked.run (store.logging command) =
        (.ok (.error poisonedError),
          store.logging command) :=
    run_unlocked_poisoned hPoisoned
  cases command with
  | fetch command =>
      rw [run_execute, answer, Run.run_bind, hUnlocked]
      rfl
  | change command =>
      rw [poisonedAnswer]
      cases hRefusal : refusal? command with
      | some error => exact execute_refused hRefusal
      | none =>
          rw [run_execute, answer, change, hRefusal]
          simp only
          rw [Run.run_bind, hUnlocked]
          rfl
  | delete command =>
      rw [run_execute, answer, Run.run_bind, hUnlocked]
      rfl

/- A poisoned store answers no command, but logs it. -/
theorem execute_poisoned
    (hPoisoned : store.poisoned = true)
    (command : Command) :
    ∃ error,
      (execute newKey command).run store =
        (.ok (.error error), store.logging command) :=
  ⟨_, execute_poisoned_eq hPoisoned command⟩

/- A key is issued for an update without one. -/
theorem run_keyed
    (location : Location) :
    (keyed newKey location).run store =
      (.ok
        (location.keyed newKey store.issuedKeys,
          location.generated? newKey store.issuedKeys),
        { store with
          issuedKeys :=
            location.issuedAfter store.issuedKeys }) := by
  unfold keyed Location.keyed Location.generated?
    Location.issuedAfter
  by_cases hKey : location.key = ""
  · have hEmpty : location.key.isEmpty = true :=
      String.isEmpty_iff.mpr hKey
    simp only [hKey, if_true]
    rfl
  · have hEmpty : ¬location.key.isEmpty = true := by
      rw [String.isEmpty_iff]
      exact hKey
    rw [if_neg hEmpty, if_neg hKey, if_neg hKey, if_neg hKey]
    rfl

/- An update of a map is made, or poisons the store. -/
theorem run_updateMap
    (before : StoredMap)
    (update : Update) :
    (updateMap before update).run store =
      match before.update update with
      | .ok stored => (.ok stored, store)
      | .error reason =>
          (.error reason, { store with poisoned := true }) := by
  unfold updateMap
  cases before.update update <;> rfl

/-
  An update that is accepted is made to the map of its
  location, or stops and poisons the store.
-/
theorem execute_change
    (hPoisoned : store.poisoned = false)
    {command : Change}
    (hRefusal : refusal? command = none) :
    let location :=
      command.location.keyed newKey store.issuedKeys
    let issuedKeys :=
      command.location.issuedAfter store.issuedKeys
    (execute newKey (.change command)).run store =
      match ((find? store.objects location).getD .new).update
          command.update with
      | .ok stored =>
          (.ok (.ok (.changed
              ⟨command.location.generated? newKey
                  store.issuedKeys,
                if command.returnBody then some stored.map
                else none,
                stored.context⟩)),
            { store.logging (.change command) with
              issuedKeys
              objects := put store.objects location stored })
      | .error reason =>
          (.error reason,
            { store.logging (.change command) with
              issuedKeys
              poisoned := true }) := by
  intro location issuedKeys
  rw [run_execute, answer, change, hRefusal]
  simp only
  rw [Run.run_bind,
    run_unlocked (show (store.logging _).poisoned = false
      from hPoisoned)]
  simp only
  rw [Run.run_bind, run_keyed]
  simp only
  rw [Run.run_bind, run_updateMap]
  simp only [logging, location]
  rcases ((find? store.objects
      (command.location.keyed newKey store.issuedKeys)).getD
        .new).update command.update with reason | stored
  · rfl
  · rfl

------------------------------------------------------------
-- Executions
------------------------------------------------------------

/- The map at the location of an update, after the update. -/
def updated
    (newKey : Nat → String)
    (store : Store)
    (command : Change) : Except Abort StoredMap :=
  ((find? store.objects
      (command.location.keyed newKey
        store.issuedKeys)).getD .new).update command.update

/-
  All that a command can come to, and the store after it.  A
  command without an answer is logged and does nothing more.
-/
inductive Executes
    (newKey : Nat → String)
    (store : Store) :
    Command →
      Except Abort (Except TransportError Response) →
      Store → Prop where
  | refused
      (command : Command)
      (error : TransportError)
      (hRefused :
        store.poisoned = true ∨
        ∃ update, command = .change update ∧ ¬Accepts update) :
      Executes newKey store command (.ok (.error error))
        (store.logging command)
  | fetched
      (command : Fetch)
      (hReadable : store.poisoned = false) :
      Executes newKey store (.fetch command)
        (.ok (.ok (.fetched
          (fetched (find? store.objects command.location)))))
        (store.logging (.fetch command))
  | deleted
      (command : Delete)
      (hReadable : store.poisoned = false) :
      Executes newKey store (.delete command)
        (.ok (.ok .deleted))
        { store.logging (.delete command) with
          objects := remove store.objects command.location }
  | changed
      (command : Change)
      (stored : StoredMap)
      (hReadable : store.poisoned = false)
      (hAccepts : Accepts command)
      (hUpdated :
        store.updated newKey command = .ok stored) :
      Executes newKey store (.change command)
        (.ok (.ok (.changed
          ⟨command.location.generated? newKey
              store.issuedKeys,
            if command.returnBody then some stored.map
            else none,
            stored.context⟩)))
        { store.logging (.change command) with
          issuedKeys :=
            command.location.issuedAfter store.issuedKeys
          objects :=
            put store.objects
              (command.location.keyed newKey
                store.issuedKeys)
              stored }
  | stopped
      (command : Change)
      (reason : Abort)
      (hReadable : store.poisoned = false)
      (hAccepts : Accepts command)
      (hUpdated :
        store.updated newKey command = .error reason) :
      Executes newKey store (.change command)
        (.error reason)
        { store.logging (.change command) with
          issuedKeys :=
            command.location.issuedAfter store.issuedKeys
          poisoned := true }

/- Every command comes to one of these. -/
theorem executes
    (newKey : Nat → String)
    (store : Store)
    (command : Command) :
    Executes newKey store command
      (store.result newKey command)
      (store.next newKey command) := by
  unfold result next
  cases hPoisoned : store.poisoned with
  | true =>
      rcases execute_poisoned hPoisoned command
        with ⟨error, hExecute⟩
      rw [hExecute]
      exact .refused command error (Or.inl hPoisoned)
  | false =>
      cases command with
      | fetch command =>
          rw [execute_fetch hPoisoned]
          exact .fetched command hPoisoned
      | delete command =>
          rw [execute_delete hPoisoned]
          exact .deleted command hPoisoned
      | change command =>
          cases hRefusal : refusal? command with
          | some error =>
              have hAccepts : ¬Accepts command := by
                rw [← refusal?_eq_none_iff, hRefusal]
                exact Option.some_ne_none error
              rw [execute_refused hRefusal]
              exact .refused _ error
                (Or.inr ⟨command, rfl, hAccepts⟩)
          | none =>
              have hAccepts :=
                refusal?_eq_none_iff.mp hRefusal
              rw [execute_change hPoisoned hRefusal]
              simp only
              split
              · rename_i stored hUpdated
                exact .changed command stored hPoisoned
                  hAccepts hUpdated
              · rename_i reason hUpdated
                exact .stopped command reason hPoisoned
                  hAccepts hUpdated

end Store

end CrdtDoc
