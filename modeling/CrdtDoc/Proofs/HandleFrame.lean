import CrdtDoc.Proofs.DocumentView
import CrdtDoc.Proofs.SessionCommands

/-
  This file shows that a handle that is sent changes its own
  entry and nothing else: all other entries of its document
  and all other documents stay as they were, and no maps are
  made but those along its path.  What the handle shows then
  is what one that is loaded next will show.

  Key definitions include:
    * `HandleKind.stored?`
    * `HandleKind.shown`
    * `Store.document`
    * `HandleKind.ChangesOnly`
    * `HandleKind.ReadsBack`

  Main declarations:
    * `Update.isSome_at?_within`
    * `HandleKind.Sent.changesOnly`
    * `HandleKind.Sent.readsBack`
    * `HandleKind.changesOnly_of_send`
-/

namespace CrdtDoc

------------------------------------------------------------
-- Values
------------------------------------------------------------

namespace HandleKind

/- What the handles of a kind show. -/
@[reducible]
def Value : HandleKind → Type
  | .counter => Integer .i64
  | .set => List Bytes
  | .flag => Bool
  | .register => Bytes

/- What is stored under a name for the handles of a kind. -/
def stored? :
    (kind : HandleKind) → CrdtMap.Entry → Option kind.Value
  | .counter, entry => CrdtMap.Entry.counter entry
  | .set, entry => CrdtMap.Entry.set entry
  | .flag, entry => CrdtMap.Entry.flag entry
  | .register, entry => CrdtMap.Entry.register entry

/- What a handle shows. -/
def shown :
    (kind : HandleKind) → kind.Handle → kind.Value
  | .counter, handle => Counter.value handle
  | .set, handle => SetHandle.items handle
  | .flag, handle => Flag.state handle
  | .register, handle => Register.value handle

/- What is sent for one kind leaves all other kinds alone. -/
theorem stored?_of_makes_written
    {kind other : HandleKind}
    (hOther : other ≠ kind)
    {slot : Slot kind}
    {before after : CrdtMap.Entry}
    (hMakes : slot.written.Makes before after) :
    other.stored? after = other.stored? before := by
  cases other with
  | counter =>
      cases kind with
      | counter => exact absurd rfl hOther
      | _ => exact hMakes.counter_eq rfl
  | set =>
      cases kind with
      | set => exact absurd rfl hOther
      | _ => exact hMakes.set_eq rfl rfl
  | flag =>
      cases kind with
      | flag => exact absurd rfl hOther
      | _ => exact hMakes.flag
  | register =>
      cases kind with
      | register => exact absurd rfl hOther
      | _ => exact hMakes.register

end HandleKind

------------------------------------------------------------
-- Maps at Paths
------------------------------------------------------------

/- The document at a location, empty if there is none. -/
def Store.document
    (store : Store)
    (location : Location) : CrdtMap :=
  (store.stored? location).getD .empty

/- A store that can be read shows the maps it holds. -/
theorem Store.stored?_of_readable
    {store : Store}
    (hReadable : store.poisoned = false)
    (location : Location) :
    store.stored? location =
      (find? store.objects location).map (·.map) := by
  rw [stored?, readable?, hReadable]
  rfl

/- Its document at a location is the map held there. -/
theorem Store.document_of_readable
    {store : Store}
    (hReadable : store.poisoned = false)
    (location : Location) :
    store.document location =
      ((find? store.objects location).getD .new).map := by
  rw [document, stored?_of_readable hReadable]
  cases find? store.objects location <;> rfl

/- An update at a path writes to the maps along the path. -/
theorem Update.isSome_at?_within
    {inner : Update}
    (hMaps : ∀ name, inner.map? name = none)
    (path other : List String) :
    ((inner.within path).at? other).isSome ↔
      other <+: path := by
  induction path generalizing other with
  | nil =>
      cases other with
      | nil => simp [at?]
      | cons first rest => simp [within, at?, hMaps first]
  | cons name rest ih =>
      cases other with
      | nil => simp [at?]
      | cons first others =>
          have hMap :
              (inner.within (name :: rest)).map? first =
                if name = first then some (inner.within rest)
                else none :=
            Entries.find?_insert [] name first _
          rw [at?, hMap, List.cons_prefix_cons]
          by_cases hName : name = first
          · subst hName
            rw [if_pos rfl, ← ih others]
            simp
          · rw [if_neg hName]
            simp [Ne.symm hName]

------------------------------------------------------------
-- Effects
------------------------------------------------------------

namespace HandleKind

/-
  A store is changed in one entry: its document and the maps
  along its path are there afterwards, and nothing else is
  new or different.
-/
structure ChangesOnly
    (kind : HandleKind)
    (binding : Binding)
    (before after : Store) : Prop where
  locations :
    ∀ location,
      location ≠ binding.path.location →
        Store.find? after.objects location =
          Store.find? before.objects location
  document :
    (after.stored? binding.path.location).isSome
  entries :
    ∀ (other : HandleKind) (path : Path) (name : String),
      (other, path, name) ≠
          (kind, binding.path, binding.name) →
        other.stored? (after.leaf path name) =
          other.stored? (before.leaf path name)
  maps :
    ∀ path,
      ((after.document binding.path.location).at?
          path).isSome ↔
        ((before.document binding.path.location).at?
          path).isSome ∨
        path <+: binding.path.segments

/-
  A handle shows what any handle of its entry shows that is
  loaded from the store next.
-/
def ReadsBack
    (kind : HandleKind)
    (newKey : Nat → String)
    (store : Store)
    (path : Path)
    (name : String)
    (handle : kind.Handle) : Prop :=
  ∀ config options, ∃ response map after,
    (Session.fetch ⟨Store.execute newKey, config⟩
        ⟨path.location, options⟩).Yields store
      (.ok response) after ∧
    response.notFound = false ∧
    response.map.at? path.segments = some map ∧
    ∀ context,
      kind.shown (kind.load ⟨path, name, context⟩ map) =
        kind.shown handle

variable {kind : HandleKind} {handle new : kind.Handle}
variable {before after : Store}

/- A handle takes over what is read in the map of its entry. -/
theorem shown_received
    {stored : StoredMap}
    {map : CrdtMap}
    (hMap :
      (kind.binding handle).mapIn? stored.map = some map)
    {old : CrdtMap.Entry}
    (hMakes :
      (Slot.written (some handle)).Makes old
        { map.entry (kind.binding handle).name with
          map := none })
    (context : Bytes) :
    kind.shown
        (kind.load
          ⟨(kind.binding handle).path,
            (kind.binding handle).name, context⟩ map) =
      kind.shown
        (kind.received handle (kind.answer stored)) := by
  have hFound :
      (some stored.map).bind (kind.binding handle).mapIn? =
        some map := hMap
  cases kind with
  | counter =>
      rcases hMakes.counter with ⟨sum, _, hSum⟩
      have hCounter :
          map.counter? handle.binding.name = some sum := hSum
      have hLoaded :
          (Counter.load
              ⟨handle.binding.path, handle.binding.name,
                context⟩ map).value = sum := by
        rw [Counter.load, hCounter]
        rfl
      exact hLoaded.trans
        (Counter.value_received hFound hCounter).symm
  | set =>
      exact (SetHandle.items_received hFound
        stored.context).symm
  | flag =>
      have hFlag :
          map.flag? handle.binding.name = some handle.state :=
        hMakes.flag
      exact congrArg (·.getD false) hFlag
  | register =>
      have hRegister :
          map.register? handle.binding.name =
            some handle.value :=
        hMakes.register
      exact congrArg (·.getD []) hRegister

/- No entry but that of the handle has changed. -/
theorem Sent.stored?_eq
    (hSent : kind.Sent before after handle new)
    {other : HandleKind}
    {path : Path}
    {name : String}
    (hOther :
      (other, path, name) ≠
        (kind, (kind.binding handle).path,
          (kind.binding handle).name)) :
    other.stored? (after.leaf path name) =
      other.stored? (before.leaf path name) := by
  by_cases hEntry :
      path = (kind.binding handle).path ∧
        name = (kind.binding handle).name
  · rcases hEntry with ⟨rfl, rfl⟩
    have hKind : other ≠ kind := by
      intro hKind
      exact hOther (by rw [hKind])
    exact stored?_of_makes_written hKind hSent.makes
  · rw [not_and_or] at hEntry
    rw [hSent.others path name hEntry]

/- What the handle shows is what is read next. -/
theorem Sent.readsBack
    (hSent : kind.Sent before after handle new)
    (newKey : Nat → String) :
    kind.ReadsBack newKey after (kind.binding handle).path
      (kind.binding handle).name new := by
  intro config options
  rcases hSent.answered with ⟨stored, map, hFind, hMap, hNew⟩
  let path := (kind.binding handle).path
  let name := (kind.binding handle).name
  refine ⟨⟨stored.map, stored.context, false⟩, map,
    after.logging
      (.fetch ⟨path.location, options.or config.read⟩),
    ?_, rfl, hMap, ?_⟩
  · unfold Run.Yields
    rw [Session.run_fetch_of_readable hSent.readable, hFind]
    rfl
  · intro context
    have hLeaf :
        after.leaf path name =
          { map.entry name with map := none } := by
      rw [Store.leaf_of_readable hSent.readable, hFind,
        Option.getD_some, CrdtMap.leaf, CrdtMap.reach, hMap]
      rfl
    have hMakes :
        (Slot.written (some handle)).Makes
          (before.leaf path name) (after.leaf path name) :=
      hSent.makes
    rw [hLeaf] at hMakes
    rw [hNew]
    exact shown_received hMap hMakes context

/-
  A handle that is sent changes its own entry and nothing
  else, and shows what is read next.
-/
theorem changesOnly_of_send
    {newKey : Nat → String}
    {config : Config}
    (hSend :
      (kind.send ⟨Store.execute newKey, config⟩).Yields
        (before, handle) (.ok ()) (after, new)) :
    kind.ChangesOnly (kind.binding handle) before after ∧
    kind.ReadsBack newKey after (kind.binding handle).path
      (kind.binding handle).name new := by
  rcases exists_update_of_send hSend
    with ⟨inner, stored, hValid, hSends, hReadable, hUpdate,
      hAfter, hNew⟩
  have hReadable' : after.poisoned = false := by
    rw [hAfter]
    exact hReadable
  have hFind :
      ∀ location,
        Store.find? after.objects location =
          if location = (kind.binding handle).path.location
          then some stored
          else Store.find? before.objects location := by
    intro location
    rw [hAfter]
    exact Store.find?_put before.objects _ location stored
  have hSent : kind.Sent before after handle new := by
    rw [hNew]
    exact sent_of_update hSends hUpdate hReadable hReadable'
      (hAfter ▸ rfl)
  have hChanges :
      kind.ChangesOnly (kind.binding handle) before after := by
    refine
      { locations := ?_
        document := ?_
        entries := fun other path name => hSent.stored?_eq
        maps := ?_ }
    · intro location hLocation
      rw [hFind, if_neg hLocation]
    · rw [Store.stored?_of_readable hReadable', hFind,
        if_pos rfl]
      rfl
    · intro path
      rw [Store.document_of_readable hReadable,
        Store.document_of_readable hReadable', hFind,
        if_pos rfl, Option.getD_some,
        ← Update.isSome_at?_within hSends.map?_eq_none]
      exact Update.isSome_at?_of_apply
        (hSends.wellFormed.within _)
        (StoredMap.apply_of_update hUpdate) path
  exact ⟨hChanges, hSent.readsBack newKey⟩

/- A set is changed next to a flag of the same name. -/
theorem changesOnly_of_send_beside :
    let newKey (_ : Nat) := "new"
    let path : Path := ⟨⟨"b", "t", "k"⟩, ["m"]⟩
    let old : CrdtMap :=
      { CrdtMap.empty with
        sets := [("s", [[2], [3]])]
        flags := [("s", true)] }
    let update : Update :=
      { Update.empty with
        adds := [("s", [[1]])]
        removes := [("s", [[2]])] }
    let before : Store :=
      { Store.empty with
        objects :=
          [(path.location,
            ⟨{ CrdtMap.empty with maps := [("m", old)] },
              ⟨1, by decide, by decide⟩⟩)] }
    let after : Store :=
      { Store.empty with
        objects :=
          [(path.location,
            ⟨{ CrdtMap.empty with
                maps :=
                  [("m",
                    { old with sets := [("s", [[1], [3]])] })] },
              ⟨2, by decide, by decide⟩⟩)]
        log :=
          [.change
            ⟨path.location, update.within ["m"],
              some [0, 0, 0, 0, 0, 0, 0, 1], true, .unset⟩] }
    let handle : SetHandle :=
      ⟨⟨path, "s", [0, 0, 0, 0, 0, 0, 0, 1]⟩, [[3], [1]],
        [[1]], [[2]]⟩
    let new : SetHandle :=
      ⟨⟨path, "s", [0, 0, 0, 0, 0, 0, 0, 2]⟩, [[1], [3]],
        [], []⟩
    (HandleKind.set.send
        ⟨Store.execute newKey, .unset⟩).Yields
      (before, handle) (.ok ()) (after, new) ∧
    HandleKind.set.ChangesOnly handle.binding before after ∧
    HandleKind.set.ReadsBack newKey after path "s" new := by
  intro newKey path old update before after handle new
  let command : Change :=
    ⟨path.location, update.within ["m"],
      some [0, 0, 0, 0, 0, 0, 0, 1], true, .unset⟩
  let map : CrdtMap :=
    { CrdtMap.empty with
      maps := [("m", { old with sets := [("s", [[1], [3]])] })] }
  let stored : StoredMap := ⟨map, ⟨2, by decide, by decide⟩⟩
  -- Places are searched by halves, so `rfl` stops there.
  have hInsert : Members.insert [[3]] [1] = [[1], [3]] := by
    unfold Members.insert Members.locate
    decide
  have hApply :
      command.update.apply
          { CrdtMap.empty with maps := [("m", old)] } =
        .ok
          { CrdtMap.empty with
            maps :=
              [("m",
                { old with
                  sets := [("s", Members.insert [[3]] [1])] })] } :=
    rfl
  rw [hInsert] at hApply
  have hUpdate :
      ((Store.find? before.objects
          (command.location.keyed newKey
            before.issuedKeys)).getD .new).update
          command.update =
        .ok stored := by
    change
      StoredMap.update
          ⟨{ CrdtMap.empty with maps := [("m", old)] },
            ⟨1, by decide, by decide⟩⟩ command.update = _
    rw [StoredMap.update, hApply]
    rfl
  have hContext :
      stored.context = [0, 0, 0, 0, 0, 0, 0, 2] := by
    change Bytes.bigEndian 8 2 = _
    decide
  let changed : Changed :=
    ⟨none, some map, [0, 0, 0, 0, 0, 0, 0, 2]⟩
  have hExecute :
      (Store.execute newKey (.change command)).run before =
        (.ok (.ok (.changed changed)), after) := by
    refine (Store.execute_change rfl rfl).trans ?_
    rw [hUpdate]
    simp only [hContext]
    rfl
  have hValid : (HandleKind.set.binding handle).IsValid :=
    ⟨by decide, by decide⟩
  have hChange :
      (Session.change ⟨Store.execute newKey, .unset⟩
          command).run before =
        ((Except.ok changed).map .ok, after) :=
    run_session_change hExecute
  have hSend :
      (HandleKind.set.send
          ⟨Store.execute newKey, .unset⟩).Yields
        (before, handle) (.ok ()) (after, new) :=
    run_send_of_change hValid rfl hChange
  exact ⟨hSend, changesOnly_of_send hSend⟩

end HandleKind

end CrdtDoc
