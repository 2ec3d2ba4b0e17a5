import CrdtDoc.Handle.Send
import CrdtDoc.Proofs.StoreHistory
import CrdtDoc.Proofs.UpdateAtPath

/-
  This file describes what it comes to when a handle is sent
  to a store in memory.  Unless the update stops, the entry
  of the handle is made from the old one as the handle says,
  no other entry changes, and the handle takes over what is
  stored then.

  Key definitions include:
    * `Binding.IsValid`
    * `HandleKind.Sends`
    * `HandleKind.change`
    * `Store.leaf`
    * `HandleKind.Sent`

  Main declarations:
    * `HandleKind.exists_sends`
    * `HandleKind.run_send`
    * `HandleKind.sent_or_stopped`
-/

namespace CrdtDoc

------------------------------------------------------------
-- Changes
------------------------------------------------------------

/- A valid binding has a name and a complete location. -/
structure Binding.IsValid
    (binding : Binding) : Prop where
  name : binding.name ≠ ""
  location : binding.path.location.IsComplete

/- A handle with a valid binding can be sent. -/
theorem Binding.IsValid.validate
    {binding : Binding}
    (hValid : binding.IsValid)
    (kind : HandleKind) :
    binding.validate kind = .ok () := by
  have hBound : binding.isBound = true := by
    simp [isBound, hValid.name]
  unfold Binding.validate
  rw [if_neg (not_not_intro hBound),
    if_neg (not_not_intro hValid.location)]

namespace Update

/- An update without removals removes no members. -/
theorem removesMembers_eq_false
    {update : Update}
    (hRemoves : ∀ name, update.removes? name = none)
    (hMaps : ∀ name, update.map? name = none) :
    update.removesMembers = false := by
  have hNil :
      ∀ {α : Type} {entries : Entries α},
        (∀ name, Entries.find? entries name = none) →
          entries = [] := by
    intro α entries hNone
    cases entries with
    | nil => rfl
    | cons entry rest =>
        have hFirst := hNone entry.1
        rw [Entries.find?, if_pos rfl] at hFirst
        cases hFirst
  rcases update with ⟨_, _, _, removes, _, maps⟩
  cases hNil hRemoves
  cases hNil hMaps
  rfl

end Update

namespace HandleKind

variable {kind : HandleKind} {handle : kind.Handle}

/- The update of a map that holds what a handle has unsent. -/
structure Sends
    (kind : HandleKind)
    (handle : kind.Handle)
    (inner : Update) : Prop where
  writes :
    (kind.writes handle (kind.binding handle).name).foldlM
      Update.write .empty = .ok inner
  replaces :
    Update.Replaces (kind.binding handle).name
      (Slot.written (some handle)) .empty inner
  wellFormed : inner.WellFormed

/- What a handle has unsent can always be written. -/
theorem exists_sends
    (kind : HandleKind)
    (handle : kind.Handle) :
    ∃ inner, kind.Sends handle inner := by
  let slot : Slot kind := some handle
  have hWrites :
      (slot.writes (kind.binding handle).name).foldlM
          Update.Entry.write
          (Update.empty.entry (kind.binding handle).name) =
        .ok slot.written :=
    slot.foldlM_writes _
  rcases Update.foldlM_write_eq_ok
    (fun _ hWrite => slot.name_of_mem_writes hWrite) hWrites
    with ⟨inner, hInner, hReplaces⟩
  exact ⟨inner, hInner, hReplaces,
    Update.wellFormed_empty.foldlM_write hInner⟩

/- The command that makes an update of a handle's map. -/
def change
    (kind : HandleKind)
    (handle : kind.Handle)
    (inner : Update)
    (options : WriteOptions) : Change where
  location := (kind.binding handle).path.location
  update := inner.within (kind.binding handle).path.segments
  context := kind.contextFor (kind.binding handle)
  returnBody := kind.wantsBody
  options

namespace Sends

variable {inner : Update}

/- This is the command that sends the handle. -/
theorem command
    (hSends : kind.Sends handle inner) :
    kind.command handle =
      .ok (kind.change handle inner .unset) := by
  rw [HandleKind.command, bind_eq_ok_iff]
  refine ⟨_, ?_, rfl⟩
  rw [Binding.update, Update.modifyAt_empty, hSends.writes]
  rfl

/- The update has one entry, which is that of the handle. -/
theorem entry_eq
    (hSends : kind.Sends handle inner)
    (name : String) :
    inner.entry name =
      if (kind.binding handle).name = name then
        Slot.written (some handle)
      else .none :=
  hSends.replaces name

/- Handles write to no maps within their map. -/
theorem map?_eq_none
    (hSends : kind.Sends handle inner)
    (name : String) :
    inner.map? name = none := by
  have hMap :=
    congrArg Update.Entry.map (hSends.entry_eq name)
  refine hMap.trans ?_
  split
  · cases kind <;> rfl
  · rfl

/-
  The command is accepted, if the handle is of no set or has
  a causal context.
-/
theorem accepts
    (hSends : kind.Sends handle inner)
    (hValid : (kind.binding handle).IsValid)
    (hContext :
      kind = .set → (kind.binding handle).context ≠ [])
    (options : WriteOptions) :
    Store.Accepts (kind.change handle inner options) := by
  rcases hValid.location with ⟨hBucket, hType, _⟩
  refine ⟨hBucket, hType, fun hNone => ?_⟩
  refine
    (Update.removesMembers_within inner _).trans
      (Update.removesMembers_eq_false ?_ hSends.map?_eq_none)
  intro name
  have hRemoves :=
    congrArg Update.Entry.removes (hSends.entry_eq name)
  refine hRemoves.trans ?_
  split
  · cases kind with
    | set =>
        have hAbsent :
            (HandleKind.set.binding handle).context? = none :=
          hNone
        have hEmpty := hContext rfl
        rw [Binding.context?,
          if_neg (by simpa using hEmpty)] at hAbsent
        cases hAbsent
    | counter => rfl
    | flag => rfl
    | register => rfl
  · rfl

end Sends

------------------------------------------------------------
-- Answers
------------------------------------------------------------

end HandleKind

/- What a store holds under a name of a map, apart from maps. -/
def Store.leaf
    (store : Store)
    (path : Path)
    (name : String) : CrdtMap.Entry :=
  ((store.stored? path.location).getD .empty).leaf
    path.segments name

/- It is what the map of its location holds. -/
theorem Store.leaf_of_readable
    {store : Store}
    (hReadable : store.poisoned = false)
    (path : Path)
    (name : String) :
    store.leaf path name =
      ((find? store.objects path.location).getD
        .new).map.leaf path.segments name := by
  rw [leaf, stored?, readable?, hReadable]
  simp only [Bool.false_eq_true, if_false, Option.bind_some]
  cases find? store.objects path.location <;> rfl

/- A map that is stored has a causal context. -/
theorem StoredMap.context_ne_nil
    (stored : StoredMap) :
    stored.context ≠ [] := by
  intro hNil
  have hLength :=
    Bytes.length_bigEndian 8 stored.version.toInt.toNat
  rw [show Bytes.bigEndian 8 stored.version.toInt.toNat =
    [] from hNil] at hLength
  cases hLength

/- A handle takes over the value that an answer shows. -/
theorem Counter.value_received
    {counter : Counter}
    {document? : Option CrdtMap}
    {map : CrdtMap}
    {value : Integer .i64}
    (hMap : document?.bind counter.binding.mapIn? = some map)
    (hValue : map.counter? counter.binding.name = some value) :
    (counter.received document?).value = value := by
  rw [received]
  simp only [hMap, Option.bind_some, hValue,
    Option.getD_some]

/- A handle takes over the items that an answer shows. -/
theorem SetHandle.items_received
    {set : SetHandle}
    {document? : Option CrdtMap}
    {map : CrdtMap}
    (hMap : document?.bind set.binding.mapIn? = some map)
    (context : Bytes) :
    (set.received document? context).items =
      storedItems map set.binding.name := by
  rw [received]
  simp only [hMap]

/- An update that stops has sums out of range. -/
theorem StoredMap.update_eq_error
    {before : StoredMap}
    {update : Update}
    {reason : Abort}
    (hUpdate : before.update update = .error reason) :
    reason = .overflow := by
  rcases bind_eq_error_iff.mp hUpdate
    with hApply | ⟨map, _, hVersion⟩
  · exact update.apply_eq_error hApply
  · split at hVersion
    · cases hVersion
      rfl
    · cases hVersion

namespace HandleKind

variable {kind : HandleKind} {handle : kind.Handle}
variable {store : Store} {newKey : Nat → String}

/- The map at a handle's location, with its version. -/
def before
    (kind : HandleKind)
    (store : Store)
    (handle : kind.Handle) : StoredMap :=
  (Store.find? store.objects
    (kind.binding handle).path.location).getD .new

/- What a handle is answered after its update was made. -/
def answer
    (kind : HandleKind)
    (stored : StoredMap) : Changed where
  generatedKey := none
  map := if kind.wantsBody then some stored.map else none
  context := stored.context

/- An update that is sent is answered as the store does. -/
theorem run_session_change
    {command : Change}
    {config : Config}
    {result : Except Abort Changed}
    {after : Store}
    (hExecute :
      (Store.execute newKey (.change { command with
          options := command.options.or config.write })).run
          store =
        (result.map (.ok ∘ .changed), after)) :
    (Session.change ⟨Store.execute newKey, config⟩
        command).run store =
      (result.map .ok, after) := by
  rw [Session.change, Run.run_bind, Session.execute,
    Run.run_bind, hExecute]
  cases result <;> rfl

/- A valid handle is answered as its update is. -/
theorem run_send_of_change
    {σ : Type}
    {session : Session σ}
    {before after : σ}
    {command : Change}
    {result : Except Abort Changed}
    (hValid : (kind.binding handle).IsValid)
    (hCommand : kind.command handle = .ok command)
    (hChange :
      (session.change command).run before =
        (result.map .ok, after)) :
    (kind.send session).run (before, handle) =
      (result.map fun _ => .ok (),
        after,
        match result with
        | .ok response => kind.received handle response
        | .error _ => handle) := by
  have hOnFirst :
      (Run.onFirst (session.change command)).run
          (before, handle) =
        (result.map .ok, after, handle) := by
    change (((session.change command).run before).1,
      ((session.change command).run before).2, handle) = _
    rw [hChange]
  have hGet :
      (get : Run (σ × kind.Handle) _).run (before, handle) =
        (.ok (before, handle), (before, handle)) := by
    rfl
  have hMade :
      (ExceptT.mk (pure (kind.command handle)) :
          Run (σ × kind.Handle) Change).run
          (before, handle) =
        (.ok command, (before, handle)) := by
    rw [hCommand]
    rfl
  rw [send, Run.run_bind, hGet]
  simp only [hValid.validate kind]
  rw [Run.run_bind, hMade]
  simp only
  rw [Run.run_bind, hOnFirst]
  cases result <;> rfl

/-
  A handle that is sent takes over the answer, or stops as
  its update does and stays as it was.
-/
theorem run_send
    (hReadable : store.poisoned = false)
    (hValid : (kind.binding handle).IsValid)
    {inner : Update}
    (hSends : kind.Sends handle inner)
    (hContext :
      kind = .set → (kind.binding handle).context ≠ [])
    (config : Config) :
    let command :=
      kind.change handle inner (.or .unset config.write)
    (kind.send ⟨Store.execute newKey, config⟩).run
        (store, handle) =
      match (kind.before store handle).update
          command.update with
      | .ok stored =>
          (.ok (.ok ()),
            { store.logging (.change command) with
              objects :=
                Store.put store.objects command.location
                  stored },
            kind.received handle (kind.answer stored))
      | .error reason =>
          (.error reason,
            { store.logging (.change command) with
              poisoned := true },
            handle) := by
  intro command
  have hAccepts : Store.refusal? command = none :=
    Store.refusal?_eq_none_iff.mpr
      (hSends.accepts hValid hContext _)
  have hExecute :=
    @Store.execute_change newKey store hReadable command
      hAccepts
  have hKey : command.location.key ≠ "" :=
    hValid.location.2.2
  simp only [Location.keyed, Location.issuedAfter,
    Location.generated?, if_neg hKey] at hExecute
  rcases hUpdated :
      (kind.before store handle).update command.update
    with reason | stored
  · rw [show ((Store.find? store.objects
      command.location).getD .new).update command.update = _
      from hUpdated] at hExecute
    exact run_send_of_change hValid hSends.command
      (@run_session_change store newKey
        (kind.change handle inner .unset) config
        (.error reason) _ hExecute)
  · rw [show ((Store.find? store.objects
      command.location).getD .new).update command.update = _
      from hUpdated] at hExecute
    exact run_send_of_change hValid hSends.command
      (@run_session_change store newKey
        (kind.change handle inner .unset) config
        (.ok (kind.answer stored)) _ hExecute)

------------------------------------------------------------
-- Effects
------------------------------------------------------------

/-
  A handle was sent: its entry was made from the old one, no
  other entry has changed, and the handle takes over what is
  stored now.
-/
structure Sent
    (kind : HandleKind)
    (before after : Store)
    (handle new : kind.Handle) : Prop where
  readable : after.poisoned = false
  makes :
    let binding := kind.binding handle
    (Slot.written (some handle)).Makes
      (before.leaf binding.path binding.name)
      (after.leaf binding.path binding.name)
  others :
    ∀ path name,
      path ≠ (kind.binding handle).path ∨
        name ≠ (kind.binding handle).name →
      after.leaf path name = before.leaf path name
  answered :
    let path := (kind.binding handle).path
    ∃ stored map,
      Store.find? after.objects path.location =
        some stored ∧
      stored.map.at? path.segments = some map ∧
      new = kind.received handle (kind.answer stored)

/- An update that was made has sent its handle. -/
theorem sent_of_update
    {inner : Update}
    (hSends : kind.Sends handle inner)
    {stored : StoredMap}
    (hUpdate :
      (kind.before store handle).update
          (inner.within (kind.binding handle).path.segments) =
        .ok stored)
    {after : Store}
    (hReadable : store.poisoned = false)
    (hAfter : after.poisoned = false)
    (hObjects :
      after.objects =
        Store.put store.objects
          (kind.binding handle).path.location stored) :
    kind.Sent store after handle
      (kind.received handle (kind.answer stored)) := by
  have hApply := StoredMap.apply_of_update hUpdate
  have hFind :
      ∀ location,
        Store.find? after.objects location =
          if location = (kind.binding handle).path.location
          then some stored
          else Store.find? store.objects location := by
    intro location
    rw [hObjects, Store.find?_put]
  rcases Update.leaf_of_apply_within hSends.wellFormed
    hSends.map?_eq_none hApply with ⟨hHere, hElsewhere⟩
  refine ⟨hAfter, ?_, ?_, ?_⟩
  · intro binding
    have hMakes := hHere binding.name
    rw [hSends.replaces.entry_eq] at hMakes
    rw [Store.leaf_of_readable hReadable,
      Store.leaf_of_readable hAfter, hFind, if_pos rfl]
    exact hMakes
  · intro path name hOther
    rw [Store.leaf_of_readable hReadable,
      Store.leaf_of_readable hAfter, hFind]
    split
    · rename_i hLocation
      by_cases hSegments :
        path.segments = (kind.binding handle).path.segments
      · have hName : (kind.binding handle).name ≠ name := by
          intro hName
          rcases hOther with hPath | hNe
          · exact hPath
              (congrArg₂ Path.mk hLocation hSegments)
          · exact hNe hName.symm
        have hMakes := hHere name
        rw [hSends.entry_eq, if_neg hName] at hMakes
        rw [hLocation, hSegments]
        exact hMakes.eq_of_none
      · rw [hLocation]
        exact hElsewhere _ name hSegments
    · rfl
  · intro path
    rw [Update.apply_within] at hApply
    cases hInner : inner.apply
        ((kind.before store handle).map.reach path.segments)
      with
    | error reason =>
        rw [hInner] at hApply
        cases hApply
    | ok new =>
        rw [hInner] at hApply
        refine ⟨stored, new, ?_, ?_, rfl⟩
        · rw [hFind, if_pos rfl]
        · rw [← Except.ok.inj hApply]
          exact CrdtMap.at?_putAt _ new path.segments

/- A handle with a valid binding is sent, unless that stops. -/
theorem sent_or_stopped
    (kind : HandleKind)
    {handle : kind.Handle}
    (hReadable : store.poisoned = false)
    (hValid : (kind.binding handle).IsValid)
    (hContext :
      kind = .set → (kind.binding handle).context ≠ [])
    (newKey : Nat → String)
    (config : Config) :
    (∃ after new,
      (kind.send ⟨Store.execute newKey, config⟩).run
          (store, handle) =
        (.ok (.ok ()), (after, new)) ∧
      kind.Sent store after handle new) ∨
    (∃ after,
      (kind.send ⟨Store.execute newKey, config⟩).run
          (store, handle) =
        (.error .overflow, (after, handle))) := by
  rcases kind.exists_sends handle with ⟨inner, hSends⟩
  have hRun :=
    @run_send _ _ _ newKey hReadable hValid _ hSends hContext
      config
  simp only at hRun
  split at hRun
  · rename_i stored hUpdate
    exact Or.inl
      ⟨_, _, hRun,
        sent_of_update hSends hUpdate hReadable hReadable rfl⟩
  · rename_i reason hUpdate
    rw [StoredMap.update_eq_error hUpdate] at hRun
    exact Or.inr ⟨_, hRun⟩

/-
  What a handle takes over is the map that holds its entry
  now, with a causal context.
-/
theorem Sent.exists_answer
    {before after : Store}
    {new : kind.Handle}
    (hSent : kind.Sent before after handle new) :
    let binding := kind.binding handle
    ∃ document map context,
      document.at? binding.path.segments = some map ∧
      after.leaf binding.path binding.name =
        { map.entry binding.name with map := none } ∧
      context ≠ [] ∧
      new =
        kind.received handle
          ⟨none, if kind.wantsBody then some document else none,
            context⟩ := by
  intro binding
  rcases hSent.answered with ⟨stored, map, hFind, hMap, hNew⟩
  refine
    ⟨stored.map, map, stored.context, hMap, ?_, ?_, hNew⟩
  · rw [Store.leaf_of_readable hSent.readable, hFind,
      Option.getD_some, CrdtMap.leaf, CrdtMap.reach, hMap]
    rfl
  · exact stored.context_ne_nil

end HandleKind

end CrdtDoc
