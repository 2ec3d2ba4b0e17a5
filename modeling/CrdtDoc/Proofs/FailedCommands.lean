import CrdtDoc.Bucket
import CrdtDoc.Proofs.SessionCommands

/-
  This file shows that a call that fails leaves no trace in
  a store in memory but the command that it sent, if it sent
  one.  A call that fails before it has anything to send, on
  a missing key, a handle or a document, sends none.

  Key definitions include:
    * `Call`
    * `Call.run`
    * `Call.IsEarly`
    * `Store.Leaves`

  Main declarations:
    * `Store.leaves_change`
    * `Store.leaves_send`
    * `Call.exists_leaves`
-/

namespace CrdtDoc

------------------------------------------------------------
-- Calls
------------------------------------------------------------

/- What can be done over a session. -/
inductive Call where
  | get (schema : Schema) (key : String)
      (options : ReadOptions)
  | set (schema : Schema) (key : String) (filter : Filter)
      (options : WriteOptions)
  | setValue (schema : Schema) (document : schema.Document)
      (key : String) (filter : Filter)
      (options : WriteOptions)
  | mapOperation (update : Update) (key : String)
      (context : Option Bytes) (options : WriteOptions)
  | delete (key : String) (options : WriteOptions)
  | send (kind : HandleKind)
  | sendSlot (kind : HandleKind)

namespace Call

/- What a call answers. -/
@[reducible]
def Answer : Call → Type
  | .send _ => Unit
  | .sendSlot _ => Unit
  | _ => Outcome

/- What a call reads and changes besides the store. -/
@[reducible]
def Own : Call → Type
  | .get schema _ _ => schema.Document
  | .set schema _ _ _ => schema.Document
  | .send kind => kind.Handle
  | .sendSlot kind => Slot kind
  | _ => Unit

/- Make a call, in a bucket if it is about one. -/
def run
    {σ : Type}
    (bucket : Bucket σ)
    (session : Session σ) :
    (call : Call) →
      Run (σ × call.Own) (Except Error call.Answer)
  | .get schema key options =>
      bucket.get session schema key options
  | .set schema key filter options =>
      bucket.set session schema key filter options
  | .setValue schema document key filter options =>
      Run.onFirst
        (bucket.setValue session schema document key filter
          options)
  | .mapOperation update key context options =>
      Run.onFirst
        (bucket.mapOperation session update key context
          options)
  | .delete key options =>
      Run.onFirst (bucket.delete session key options)
  | .send kind => kind.send session
  | .sendSlot kind => Slot.send kind session

/- Is an error one that is met before anything is sent? -/
def IsEarly : Call → Error → Prop
  | _, .client (.missingKey _) => True
  | _, .handle _ => True
  | .set .., .codec _ => True
  | .setValue .., .codec _ => True
  | _, _ => False

/- Is a call one that only reads the store? -/
def IsGet : Call → Prop
  | .get .. => True
  | _ => False

end Call

------------------------------------------------------------
-- Traces
------------------------------------------------------------

namespace Store

/-
  What a call leaves of a store: at most one more command is
  logged, none if an early error was met, and nothing else
  is different if the call failed.
-/
structure Leaves
    {α : Type}
    (IsEarly : Error → Prop)
    (before : Store)
    (result : Except Abort (Except Error α))
    (after : Store)
    (sent : List Command) : Prop where
  length : sent.length ≤ 1
  log : after.log = before.log ++ sent
  failed :
    ∀ error,
      result = .ok (.error error) →
        after = { before with log := before.log ++ sent }
  early :
    ∀ error,
      result = .ok (.error error) → IsEarly error → sent = []

variable {α β : Type} {IsEarly : Error → Prop}
variable {newKey : Nat → String} {config : Config}
variable {store : Store}

/- A call that sends nothing leaves the store as it was. -/
theorem leaves_nothing
    (result : Except Abort (Except Error α)) :
    Leaves IsEarly store result store [] where
  length := Nat.zero_le 1
  log := (List.append_nil store.log).symm
  failed _ _ := by
    rw [List.append_nil]
  early _ _ _ := rfl

/- A call that fails only if another does leaves the same. -/
theorem Leaves.of_failed
    {result : Except Abort (Except Error α)}
    {after : Store}
    {sent : List Command}
    (hLeaves : Leaves IsEarly store result after sent)
    {other : Except Abort (Except Error β)}
    (hOther :
      ∀ error,
        other = .ok (.error error) →
          result = .ok (.error error)) :
    Leaves IsEarly store other after sent where
  length := hLeaves.length
  log := hLeaves.log
  failed error hError :=
    hLeaves.failed error (hOther error hError)
  early error hError :=
    hLeaves.early error (hOther error hError)

/- A call that only makes use of an answer leaves the same. -/
theorem Leaves.map
    {result : Except Abort (Except Error α)}
    {after : Store}
    {sent : List Command}
    (hLeaves : Leaves IsEarly store result after sent)
    (use : α → β) :
    Leaves IsEarly store (result.map (Except.map use)) after
      sent := by
  refine hLeaves.of_failed ?_
  intro error hError
  rcases result with reason | (reason | answer)
  · cases hError
  · cases hError
    rfl
  · cases hError

/- A call that only has its command logged leaves that. -/
theorem leaves_logging
    (command : Command)
    {result : Except Abort (Except Error α)}
    (hLate :
      ∀ error,
        result = .ok (.error error) → ¬IsEarly error) :
    Leaves IsEarly store result (store.logging command)
      [command] where
  length := Nat.le_refl 1
  log := rfl
  failed _ _ := rfl
  early error hError hEarly :=
    absurd hEarly (hLate error hError)

/- A call that does not fail leaves its command. -/
theorem leaves_of_log
    {command : Command}
    {after : Store}
    (hLog : after.log = store.log ++ [command])
    {result : Except Abort (Except Error α)}
    (hResult : ∀ error, result ≠ .ok (.error error)) :
    Leaves IsEarly store result after [command] where
  length := Nat.le_refl 1
  log := hLog
  failed error hError := absurd hError (hResult error)
  early error hError := absurd hError (hResult error)

/- A fetch leaves its command, whatever it comes to. -/
theorem exists_run_fetch
    (command : Fetch) :
    ∃ sent result,
      (Session.fetch ⟨Store.execute newKey, config⟩
          command).run store =
        (.ok result, store.logging sent) ∧
      ∀ error,
        result = .error error →
          ∃ reason, error = .transport reason := by
  let sent : Fetch :=
    { command with
      options := command.options.or config.read }
  have hExecutes := store.executes newKey (.fetch sent)
  refine ⟨.fetch sent, ?_⟩
  rw [Session.run_fetch]
  generalize store.result newKey (.fetch sent) = answer at *
  generalize store.next newKey (.fetch sent) = next at *
  cases hExecutes with
  | refused _ error _ =>
      refine ⟨_, rfl, ?_⟩
      intro other hOther
      cases hOther
      exact ⟨error, rfl⟩
  | fetched _ _ => exact ⟨_, rfl, nofun⟩

/- An update that fails is one that the store refuses. -/
theorem exists_leaves_change
    (hLate : ∀ reason, ¬IsEarly (.transport reason))
    {command : Change}
    {result : Except Abort (Except Error Changed)}
    {after : Store}
    (hRun :
      (Session.change ⟨Store.execute newKey, config⟩
        command).run store = (result, after)) :
    ∃ sent, Leaves IsEarly store result after [sent] := by
  let sent : Change :=
    { command with
      options := command.options.or config.write }
  have hExecutes := store.executes newKey (.change sent)
  refine ⟨.change sent, ?_⟩
  rw [Session.run_change] at hRun
  generalize store.result newKey (.change sent) = answer at *
  generalize store.next newKey (.change sent) = next at *
  cases hRun
  have hLog := hExecutes.log_eq
  cases hExecutes with
  | refused _ error _ =>
      apply leaves_logging
      intro other hOther
      cases hOther
      exact hLate error
  | changed _ _ _ _ _ => exact leaves_of_log hLog nofun
  | stopped _ _ _ _ _ => exact leaves_of_log hLog nofun

/- A deletion that fails is one that the store refuses. -/
theorem exists_leaves_delete
    (hLate : ∀ reason, ¬IsEarly (.transport reason))
    {command : Delete}
    {result : Except Abort (Except Error Unit)}
    {after : Store}
    (hRun :
      (Session.delete ⟨Store.execute newKey, config⟩
        command).run store = (result, after)) :
    ∃ sent, Leaves IsEarly store result after [sent] := by
  let sent : Delete :=
    { command with
      options := command.options.or config.write }
  have hExecutes := store.executes newKey (.delete sent)
  refine ⟨.delete sent, ?_⟩
  rw [Session.run_delete] at hRun
  generalize store.result newKey (.delete sent) = answer at *
  generalize store.next newKey (.delete sent) = next at *
  cases hRun
  have hLog := hExecutes.log_eq
  cases hExecutes with
  | refused _ error _ =>
      apply leaves_logging
      intro other hOther
      cases hOther
      exact hLate error
  | deleted _ _ => exact leaves_of_log hLog nofun

/- A handle leaves what its update leaves. -/
theorem exists_leaves_send
    (hLate : ∀ reason, ¬IsEarly (.transport reason))
    {kind : HandleKind}
    {handle new : kind.Handle}
    {result : Except Abort (Except Error Unit)}
    {after : Store}
    (hRun :
      (kind.send ⟨Store.execute newKey, config⟩).run
          (store, handle) = (result, after, new)) :
    ∃ sent, Leaves IsEarly store result after sent := by
  cases hValidate : (kind.binding handle).validate kind with
  | error error =>
      rw [HandleKind.run_send_of_invalid hValidate] at hRun
      cases hRun
      exact ⟨[], leaves_nothing _⟩
  | ok done =>
      rcases kind.exists_sends handle with ⟨inner, hSends⟩
      rw [HandleKind.run_send_of_validate hValidate
        hSends.command] at hRun
      rcases hChange :
          (Session.change ⟨Store.execute newKey, config⟩
            (kind.change handle inner .unset)).run store
        with ⟨answer, next⟩
      rw [hChange] at hRun
      rcases exists_leaves_change hLate hChange
        with ⟨sent, hLeaves⟩
      refine ⟨[sent], ?_⟩
      have hMap := hLeaves.map fun _ => ()
      rcases answer with reason | (error | response)
      · cases hRun
        exact hMap
      · cases hRun
        exact hMap
      · cases hRun
        exact hMap

/- A slot leaves what its handle leaves, if it has one. -/
theorem exists_leaves_sendSlot
    (hLate : ∀ reason, ¬IsEarly (.transport reason))
    {kind : HandleKind}
    {slot new : Slot kind}
    {result : Except Abort (Except Error Unit)}
    {after : Store}
    (hRun :
      (Slot.send kind ⟨Store.execute newKey, config⟩).run
          (store, slot) = (result, after, new)) :
    ∃ sent, Leaves IsEarly store result after sent := by
  cases slot with
  | none =>
      cases hRun
      exact ⟨[], leaves_nothing _⟩
  | some handle =>
      rcases hSend :
          (kind.send ⟨Store.execute newKey, config⟩).run
            (store, handle)
        with ⟨answer, next, other⟩
      have hSlot :
          (Slot.send kind ⟨Store.execute newKey, config⟩).run
              (store, some handle) =
            (answer, next, some other) := by
        change (((kind.send _).run (store, handle)).1,
          ((kind.send _).run (store, handle)).2.1,
          some ((kind.send _).run (store, handle)).2.2) = _
        rw [hSend]
      rw [hSlot] at hRun
      cases hRun
      exact exists_leaves_send hLate hSend

/- A change of a map leaves what its update leaves. -/
theorem exists_leaves_changeMap
    (hLate : ∀ reason, ¬IsEarly (.transport reason))
    {command : Change}
    {result : Except Abort (Except Error Outcome)}
    {after : Store}
    (hRun :
      (Bucket.changeMap ⟨Store.execute newKey, config⟩
        command).run store = (result, after)) :
    ∃ sent, Leaves IsEarly store result after sent := by
  rcases hChange :
      (Session.change ⟨Store.execute newKey, config⟩
        command).run store
    with ⟨answer, next⟩
  rcases exists_leaves_change hLate hChange
    with ⟨sent, hLeaves⟩
  refine ⟨[sent], ?_⟩
  have hMap := hLeaves.map fun response =>
    Outcome.mk
      (response.generatedKey.getD command.location.key)
      response.context
  rw [Bucket.changeMap, Run.run_bind, hChange] at hRun
  rcases answer with reason | (error | response)
  · cases hRun
    exact hMap
  · cases hRun
    exact hMap
  · cases hRun
    exact hMap

/- The removal of a map leaves what its deletion leaves. -/
theorem exists_leaves_removeMap
    (hLate : ∀ reason, ¬IsEarly (.transport reason))
    {command : Delete}
    {result : Except Abort (Except Error Outcome)}
    {after : Store}
    (hRun :
      (Bucket.removeMap ⟨Store.execute newKey, config⟩
        command).run store = (result, after)) :
    ∃ sent, Leaves IsEarly store result after sent := by
  rcases hDelete :
      (Session.delete ⟨Store.execute newKey, config⟩
        command).run store
    with ⟨answer, next⟩
  rcases exists_leaves_delete hLate hDelete
    with ⟨sent, hLeaves⟩
  refine ⟨[sent], ?_⟩
  have hMap := hLeaves.map fun _ =>
    Outcome.mk command.location.key []
  rw [Bucket.removeMap, Run.run_bind, hDelete] at hRun
  rcases answer with reason | (error | response)
  · cases hRun
    exact hMap
  · cases hRun
    exact hMap
  · cases hRun
    exact hMap

/- A document that cannot be written is not sent. -/
theorem exists_leaves_storeEncoded
    (hLate : ∀ reason, ¬IsEarly (.transport reason))
    {location : Location}
    {filter : Filter}
    {options : WriteOptions}
    {encoded : Except EncodeFailure Encoded}
    {result : Except Abort (Except Error Outcome)}
    {after : Store}
    (hRun :
      (Bucket.storeEncoded ⟨Store.execute newKey, config⟩
        location filter options encoded).run store =
          (result, after)) :
    ∃ sent, Leaves IsEarly store result after sent := by
  cases encoded with
  | ok encoded => exact exists_leaves_changeMap hLate hRun
  | error failure =>
      cases failure with
      | codec error =>
          cases hRun
          exact ⟨[], leaves_nothing _⟩
      | abort reason =>
          cases hRun
          exact ⟨[], leaves_nothing _⟩

/- A document is stored as what was written of it. -/
theorem exists_leaves_storeDocument
    (hLate : ∀ reason, ¬IsEarly (.transport reason))
    {schema : Schema}
    {document new : schema.Document}
    {location : Location}
    {filter : Filter}
    {options : WriteOptions}
    {result : Except Abort (Except Error Outcome)}
    {after : Store}
    (hRun :
      (Bucket.storeDocument ⟨Store.execute newKey, config⟩
        schema location filter options).run
          (store, document) = (result, after, new)) :
    ∃ sent, Leaves IsEarly store result after sent := by
  rw [Bucket.run_storeDocument] at hRun
  cases hRun
  exact exists_leaves_storeEncoded hLate rfl

/-
  A document that is fetched leaves nothing but its command,
  whatever it comes to.
-/
theorem exists_fetchDocument
    {schema : Schema}
    {document new : schema.Document}
    {location : Location}
    {options : ReadOptions}
    {result : Except Abort (Except Error Outcome)}
    {after : Store}
    (hRun :
      (Bucket.fetchDocument ⟨Store.execute newKey, config⟩
        schema location options).run (store, document) =
          (result, after, new)) :
    ∃ sent,
      after = store.logging sent ∧
      ∀ error,
        result = .ok (.error error) →
          (∃ reason, error = .transport reason) ∨
          error = .client (.notFound location) ∨
          ∃ reason, error = .codec reason := by
  rcases exists_run_fetch ⟨location, options⟩
    with ⟨sent, answer, hFetch, hErrors⟩
  refine ⟨sent, ?_⟩
  rw [Bucket.fetchDocument, Run.run_bind, Run.run_onFirst,
    hFetch] at hRun
  cases answer with
  | error error =>
      cases hRun
      refine ⟨rfl, ?_⟩
      intro other hOther
      cases hOther
      exact Or.inl (hErrors error rfl)
  | ok response =>
      simp only at hRun
      split at hRun
      · cases hRun
        refine ⟨rfl, ?_⟩
        intro other hOther
        cases hOther
        exact Or.inr (Or.inl rfl)
      · rcases hDecode :
            schema.decodeDocument response.map
              response.context (.root location) document
          with ⟨decoded, read⟩
        have hGet :
            (get : Run (Store × schema.Document) _).run
                (store.logging sent, document) =
              (.ok (store.logging sent, document),
                store.logging sent, document) := by
          rfl
        rw [Run.run_bind, hGet] at hRun
        simp only [hDecode] at hRun
        cases decoded with
        | error reason =>
            cases hRun
            refine ⟨rfl, ?_⟩
            intro other hOther
            cases hOther
            exact Or.inr (Or.inr ⟨reason, rfl⟩)
        | ok done =>
            cases hRun
            exact ⟨rfl, nofun⟩

end Store

------------------------------------------------------------
-- All Calls
------------------------------------------------------------

namespace Call

/- No answer of a store is an early error. -/
theorem not_isEarly_transport
    (call : Call)
    (reason : TransportError) :
    ¬call.IsEarly (.transport reason) := by
  cases call <;> exact id

/-
  Every call leaves at most its command, and nothing else if
  it fails; and one that only reads leaves nothing else
  whatever it comes to.
-/
theorem exists_leaves
    (newKey : Nat → String)
    (config : Config)
    (name type : String)
    (call : Call)
    (store : Store)
    (own : call.Own) :
    let bucket : Bucket Store := ⟨name, type, []⟩
    let session : Session Store :=
      ⟨Store.execute newKey, config⟩
    let run := (call.run bucket session).run (store, own)
    ∃ sent,
      Store.Leaves call.IsEarly store run.1 run.2.1 sent ∧
      (call.IsGet →
        run.2.1 =
          { store with log := store.log ++ sent }) := by
  intro bucket session run
  -- What is early for a call is never the store's answer, so
  -- that whatever was sent was sent before a late error.
  have hLate := call.not_isEarly_transport
  rcases hRun : run with ⟨result, after, new⟩
  cases call with
  | get schema key options =>
      change (bucket.get session schema key options).run
        (store, own) = _ at hRun
      rw [Bucket.get] at hRun
      split at hRun
      · cases hRun
        refine ⟨[], Store.leaves_nothing _, fun _ => ?_⟩
        rw [List.append_nil]
      · rcases Store.exists_fetchDocument hRun
          with ⟨sent, rfl, hErrors⟩
        refine
          ⟨[sent], Store.leaves_logging sent ?_, fun _ => rfl⟩
        intro error hError
        rcases hErrors error hError
          with ⟨reason, rfl⟩ | rfl | ⟨reason, rfl⟩
        · exact hLate reason
        · exact id
        · exact id
  | set schema key filter options =>
      rcases Store.exists_leaves_storeDocument hLate hRun
        with ⟨sent, hLeaves⟩
      exact ⟨sent, hLeaves, nofun⟩
  | setValue schema document key filter options =>
      change (Run.onFirst (bucket.setValue session schema
        document key filter options)).run (store, own) = _
        at hRun
      rw [Run.run_onFirst] at hRun
      cases hRun
      rcases Store.exists_leaves_storeEncoded hLate rfl
        with ⟨sent, hLeaves⟩
      exact ⟨sent, hLeaves, nofun⟩
  | mapOperation update key context options =>
      change (Run.onFirst (bucket.mapOperation session update
        key context options)).run (store, own) = _ at hRun
      rw [Run.run_onFirst] at hRun
      cases hRun
      rcases Store.exists_leaves_changeMap hLate rfl
        with ⟨sent, hLeaves⟩
      exact ⟨sent, hLeaves, nofun⟩
  | delete key options =>
      change (Run.onFirst (bucket.delete session key
        options)).run (store, own) = _ at hRun
      rw [Run.run_onFirst, Bucket.delete] at hRun
      split at hRun
      · cases hRun
        exact ⟨[], Store.leaves_nothing _, nofun⟩
      · cases hRun
        rcases Store.exists_leaves_removeMap hLate rfl
          with ⟨sent, hLeaves⟩
        exact ⟨sent, hLeaves, nofun⟩
  | send kind =>
      rcases Store.exists_leaves_send hLate hRun
        with ⟨sent, hLeaves⟩
      exact ⟨sent, hLeaves, nofun⟩
  | sendSlot kind =>
      rcases Store.exists_leaves_sendSlot hLate hRun
        with ⟨sent, hLeaves⟩
      exact ⟨sent, hLeaves, nofun⟩

end Call

end CrdtDoc
