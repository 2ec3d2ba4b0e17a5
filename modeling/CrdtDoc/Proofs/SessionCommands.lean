import CrdtDoc.Bucket
import CrdtDoc.Proofs.HandleSending

/-
  This file describes sessions over a store in memory, and
  the handles and documents that they send: a session sends
  each command once, and answers as the store does.

  Key definitions include:
    * `Session.fetchResult`
    * `Session.changeResult`
    * `Session.deleteResult`

  Main declarations:
    * `Session.run_change_eq`
    * `Session.run_fetch`
    * `Session.run_change`
    * `Session.run_delete`
    * `Bucket.run_storeDocument`
    * `HandleKind.run_send_of_invalid`
    * `HandleKind.run_send_of_validate`
    * `HandleKind.exists_update_of_send`
-/

namespace CrdtDoc

------------------------------------------------------------
-- Sessions
------------------------------------------------------------

namespace Session

/- What a fetch comes to after the answer to it. -/
def fetchResult :
    Except TransportError Response → Except Error Fetched
  | .ok (.fetched response) => .ok response
  | .ok other => .error (unexpected "fetch_map" other)
  | .error error => .error (.transport error)

/- What an update comes to after the answer to it. -/
def changeResult :
    Except TransportError Response → Except Error Changed
  | .ok (.changed response) => .ok response
  | .ok other => .error (unexpected "update_map" other)
  | .error error => .error (.transport error)

/- What a deletion comes to after the answer to it. -/
def deleteResult :
    Except TransportError Response → Except Error Unit
  | .ok .deleted => .ok ()
  | .ok other => .error (unexpected "delete" other)
  | .error error => .error (.transport error)

/- Over any transport, a command comes to its answer. -/
theorem run_execute_eq
    {σ : Type}
    (session : Session σ)
    (command : Command)
    (before : σ) :
    (session.execute command).run before =
      (((session.transport command).run before).1.map
          (Except.mapError .transport),
        ((session.transport command).run before).2) := by
  rw [execute, Run.run_bind]
  rcases (session.transport command).run before
    with ⟨result, next⟩
  cases result <;> rfl

/- Over any transport, an update comes to its answer. -/
theorem run_change_eq
    {σ : Type}
    (session : Session σ)
    (command : Change)
    (before : σ) :
    let sent : Command :=
      .change { command with
        options := command.options.or session.config.write }
    (session.change command).run before =
      (((session.transport sent).run before).1.map
          changeResult,
        ((session.transport sent).run before).2) := by
  intro sent
  rw [change, Run.run_bind, run_execute_eq]
  rcases (session.transport sent).run before
    with ⟨reason | (error | response), after⟩
  · rfl
  · rfl
  · cases response <;> rfl

variable {newKey : Nat → String} {config : Config}
variable {store : Store}

/- A command is sent once, as it is. -/
theorem run_execute
    (command : Command) :
    (execute ⟨Store.execute newKey, config⟩ command).run
        store =
      ((store.result newKey command).map
          (Except.mapError .transport),
        store.next newKey command) :=
  run_execute_eq _ command store

/- A fetch is sent once, with the options of the session. -/
theorem run_fetch
    (command : Fetch) :
    let sent : Command :=
      .fetch { command with
        options := command.options.or config.read }
    (fetch ⟨Store.execute newKey, config⟩ command).run
        store =
      ((store.result newKey sent).map fetchResult,
        store.next newKey sent) := by
  intro sent
  rw [fetch, Run.run_bind, run_execute]
  rcases store.result newKey sent
    with reason | (error | response)
  · rfl
  · rfl
  · cases response <;> rfl

/- A store that can be read answers a fetch with its map. -/
theorem run_fetch_of_readable
    (hReadable : store.poisoned = false)
    (command : Fetch) :
    (fetch ⟨Store.execute newKey, config⟩ command).run
        store =
      (.ok (.ok (Store.fetched
        (Store.find? store.objects command.location))),
        store.logging (.fetch { command with
          options := command.options.or config.read })) := by
  rw [run_fetch]
  unfold Store.result Store.next
  rw [Store.execute_fetch hReadable]
  rfl

/- An update is sent once, with the options of the session. -/
theorem run_change
    (command : Change) :
    let sent : Command :=
      .change { command with
        options := command.options.or config.write }
    (change ⟨Store.execute newKey, config⟩ command).run
        store =
      ((store.result newKey sent).map changeResult,
        store.next newKey sent) :=
  run_change_eq _ command store

/- A deletion is sent once, with the options of the session. -/
theorem run_delete
    (command : Delete) :
    let sent : Command :=
      .delete { command with
        options := command.options.or config.write }
    (delete ⟨Store.execute newKey, config⟩ command).run
        store =
      ((store.result newKey sent).map deleteResult,
        store.next newKey sent) := by
  intro sent
  rw [delete, Run.run_bind, run_execute]
  rcases store.result newKey sent
    with reason | (error | response)
  · rfl
  · rfl
  · cases response <;> rfl

end Session

/-
  A document is stored as what was written of it, and stays
  as it was left by this, whatever the store answers.
-/
theorem Bucket.run_storeDocument
    {σ : Type}
    (session : Session σ)
    (schema : Schema)
    (location : Location)
    (filter : Filter)
    (options : WriteOptions)
    (before : σ)
    (document : schema.Document) :
    let encoded :=
      schema.encodeDocumentBinding document (.root location)
    let stored :=
      (storeEncoded session location filter options
        encoded.1).run before
    (storeDocument session schema location filter
        options).run (before, document) =
      (stored.1, stored.2, encoded.2) := by
  rfl

------------------------------------------------------------
-- Handles
------------------------------------------------------------

/- A binding that leads to an entry is valid. -/
theorem Binding.isValid_of_validate
    {binding : Binding}
    {kind : HandleKind}
    (hValidate : binding.validate kind = .ok ()) :
    binding.IsValid := by
  unfold Binding.validate at hValidate
  split at hValidate
  · cases hValidate
  · rename_i hBound
    split at hValidate
    · cases hValidate
    · rename_i hLocation
      refine ⟨?_, not_not.mp hLocation⟩
      intro hName
      simp [isBound, hName] at hBound

namespace HandleKind

variable {σ : Type} {session : Session σ} {before : σ}
variable {kind : HandleKind} {handle : kind.Handle}

/- A handle that leads to no entry is not sent. -/
theorem run_send_of_invalid
    {error : HandleError}
    (hValidate :
      (kind.binding handle).validate kind = .error error) :
    (kind.send session).run (before, handle) =
      (.ok (.error (.handle error)), before, handle) := by
  have hGet :
      (get : Run (σ × kind.Handle) _).run (before, handle) =
        (.ok (before, handle), (before, handle)) := by
    rfl
  rw [send, Run.run_bind, hGet]
  simp only [hValidate]
  rfl

/- Any other handle comes to what its update comes to. -/
theorem run_send_of_validate
    (hValidate :
      (kind.binding handle).validate kind = .ok ())
    {command : Change}
    (hCommand : kind.command handle = .ok command) :
    (kind.send session).run (before, handle) =
      match (session.change command).run before with
      | (.error reason, after) =>
          (.error reason, after, handle)
      | (.ok (.error error), after) =>
          (.ok (.error error), after, handle)
      | (.ok (.ok response), after) =>
          (.ok (.ok ()), after,
            kind.received handle response) := by
  have hGet :
      (get : Run (σ × kind.Handle) _).run (before, handle) =
        (.ok (before, handle), (before, handle)) := by
    rfl
  have hMade :
      (ExceptT.mk (pure (kind.command handle)) :
          Run (σ × kind.Handle) Change).run
          (before, handle) =
        (.ok command, (before, handle)) := by
    rw [hCommand]
    rfl
  rw [send, Run.run_bind, hGet]
  simp only [hValidate]
  rw [Run.run_bind, hMade]
  simp only
  rw [Run.run_bind, Run.run_onFirst]
  rcases (session.change command).run before
    with ⟨reason | (error | response), after⟩
  · rfl
  · rfl
  · rfl

/-
  A handle whose sending succeeds is valid, and its update
  was made to the map at its location.
-/
theorem exists_update_of_send
    {newKey : Nat → String}
    {config : Config}
    {before after : Store}
    {new : kind.Handle}
    (hSend :
      (kind.send ⟨Store.execute newKey, config⟩).Yields
        (before, handle) (.ok ()) (after, new)) :
    ∃ inner stored,
      let command :=
        kind.change handle inner (.or .unset config.write)
      (kind.binding handle).IsValid ∧
      kind.Sends handle inner ∧
      before.poisoned = false ∧
      (kind.before before handle).update command.update =
        .ok stored ∧
      after =
        { before.logging (.change command) with
          objects :=
            Store.put before.objects command.location
              stored } ∧
      new = kind.received handle (kind.answer stored) := by
  unfold Run.Yields at hSend
  cases hValidate : (kind.binding handle).validate kind with
  | error error =>
      rw [run_send_of_invalid hValidate] at hSend
      cases hSend
  | ok done =>
      have hValid := Binding.isValid_of_validate hValidate
      have hKey := hValid.location.2.2
      rcases kind.exists_sends handle with ⟨inner, hSends⟩
      rw [run_send_of_validate hValidate hSends.command,
        Session.run_change] at hSend
      have hExecutes :=
        before.executes newKey
          (.change
            (kind.change handle inner
              (.or .unset config.write)))
      simp only [change] at hSend hExecutes ⊢
      generalize before.result newKey _ = result at *
      generalize before.next newKey _ = next at *
      cases hExecutes with
      | refused _ error hRefused => cases hSend
      | stopped _ reason _ _ _ => cases hSend
      | changed _ stored hReadable hAccepts hUpdated =>
          rw [Store.updated, Location.keyed, if_neg hKey]
            at hUpdated
          rw [Location.keyed, if_neg hKey,
            Location.issuedAfter, if_neg hKey,
            Location.generated?, if_neg hKey] at hSend
          cases hSend
          exact ⟨inner, stored, hValid, hSends, hReadable,
            hUpdated, rfl, rfl⟩

end HandleKind

end CrdtDoc
