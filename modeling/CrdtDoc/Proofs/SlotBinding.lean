import CrdtDoc.Bucket
import CrdtDoc.Proofs.EntryReading
import CrdtDoc.Proofs.Running
import CrdtDoc.Proofs.TableReading

/-
  This file shows that a document that was fetched has no
  slot left from before: every slot that reading reaches
  holds a handle of its own entry, with the context of the
  fetch.

  Reading reaches the slots of stored fields, of documents
  whose map is there, and of all entries of a table whose
  map is there.  A step around a fetch must not make a
  success out of nothing, or out of an error.

  Key definitions include:
    * `Schema.SlotsBound`
    * `Middleware.IsFaithful`
    * `Middleware.Passes`

  Main declarations:
    * `Schema.slotsBound_of_decode`
    * `Middleware.exists_command_of_chain`
    * `Bucket.slotsBound_of_get`
-/

namespace CrdtDoc

------------------------------------------------------------
-- Bound Slots
------------------------------------------------------------

mutual
/-
  The slots that are reached when a value is read under a
  name hold handles of their entries.
-/
def FieldType.SlotsBound :
    (type : FieldType) → type.Value → String → Source → Prop
  | .slot kind, slot, name, source =>
      ∃ handle,
        slot = some handle ∧
        kind.binding handle = source.binding name
  | .document schema, document, name, source =>
      ∀ child, source.child? name = some child →
        schema.SlotsBound document child
  | .table _ key value, table, name, source =>
      ∀ child, source.child? name = some child →
        ∀ item ∈ Table.entries table, ∃ entry,
          key.parse? entry = some item.1 ∧
          value.SlotsBound item.2 entry child
  | _, _, _, _ => True

/- The slots that are reached in the stored fields do so. -/
def Schema.SlotsBound :
    (schema : Schema) → schema.Document → Source → Prop
  | .nil, _, _ => True
  | .stored _ name type rest, (value, values), source =>
      type.SlotsBound value name source ∧
      rest.SlotsBound values source
  | .skipped _ _ rest, (_, values), source =>
      rest.SlotsBound values source
  | .context _ rest, (_, values), source =>
      rest.SlotsBound values source
end

/- A handle that was loaded is of the entry asked for. -/
theorem HandleKind.binding_load
    (kind : HandleKind)
    (binding : Binding)
    (map : CrdtMap) :
    kind.binding (kind.load binding map) = binding := by
  cases kind <;> rfl

/- An entry that must fit holds no slot. -/
theorem FieldType.slotsBound_of_isStrictEntry
    {type : FieldType}
    (hStrict : type.IsStrictEntry)
    (value : type.Value)
    (name : String)
    (source : Source) :
    type.SlotsBound value name source := by
  cases type with
  | int type => trivial
  | text => trivial
  | array element length => trivial
  | _ => exact hStrict.elim

mutual
/- Reading a value binds the slots that it reaches. -/
theorem FieldType.slotsBound_of_decode :
    (type : FieldType) → {name : String} →
      {source : Source} → {old new : type.Value} →
      type.decode name source old = (.ok (), new) →
      type.SlotsBound new name source
  | .int _, _, _, _, _, _ => trivial
  | .text, _, _, _, _, _ => trivial
  | .bool, _, _, _, _, _ => trivial
  | .timestamp, _, _, _, _, _ => trivial
  | .float32, _, _, _, _, _ => trivial
  | .float64, _, _, _, _, _ => trivial
  | .char, _, _, _, _, _ => trivial
  | .list _, _, _, _, _, _ => trivial
  | .array _ _, _, _, _, _, _ => trivial
  | .slot kind, name, source, _, _, hDecode => by
      cases hDecode
      exact ⟨_, rfl, kind.binding_load _ source.map⟩
  | .document schema, name, source, _, _, hDecode => by
      intro child hChild
      rw [FieldType.decode, hChild] at hDecode
      exact schema.slotsBound_of_decode hDecode
  | .table _ key value, name, source, _, new, hDecode => by
      intro child hChild item hItem
      rw [FieldType.decode, hChild] at hDecode
      have hTable := Reading.eq_of_replace hDecode
      rcases Source.readsEntry_of_find? hTable
        (Table.find?_eq_some_iff.mpr hItem)
        with ⟨entry, _, hKey, hRead⟩
      refine ⟨entry, KeyType.read_eq_ok_iff.mp hKey, ?_⟩
      by_cases hStrict : value.IsStrictEntry
      · exact FieldType.slotsBound_of_isStrictEntry hStrict
          item.2 entry child
      · exact value.slotsBound_of_decode
          (FieldType.decode_of_readEntry hStrict hRead)

/- Reading a document binds the slots that it reaches. -/
theorem Schema.slotsBound_of_decode :
    (schema : Schema) → {source : Source} →
      {old new : schema.Document} →
      schema.decode source old = (.ok (), new) →
      schema.SlotsBound new source
  | .nil, _, _, _, _ => trivial
  | .stored _ _ type rest, _, _, _, hDecode => by
      rcases Schema.decode_stored_eq_ok_iff.mp hDecode
        with ⟨hValue, hRest⟩
      exact ⟨type.slotsBound_of_decode hValue,
        rest.slotsBound_of_decode hRest⟩
  | .skipped _ _ rest, _, _, _, hDecode =>
      rest.slotsBound_of_decode
        (Schema.decode_skipped_eq_ok_iff.mp hDecode).2
  | .context _ rest, _, _, _, hDecode =>
      rest.slotsBound_of_decode
        (Schema.decode_context_eq_ok_iff.mp hDecode).2
end

------------------------------------------------------------
-- Middleware
------------------------------------------------------------

namespace Middleware

variable {σ τ : Type}

/-
  A step neither answers a request with a success of its
  own, nor makes a success of an error.
-/
def IsFaithful
    (step : Middleware σ) : Prop :=
  ∀ request before after,
    (∀ outcome,
      ¬(step request).Yields before
        (.answer (.ok outcome)) after) ∧
    ∀ finish,
      (step request).Yields before (.pass finish) after →
      ∀ error start outcome last,
        ¬(finish (.error error)).Yields start
          (.ok outcome) last

/-
  Steps pass a request on, and a success back: the command
  starts where they lead from the state before, and from
  where it ends they lead to the state after.
-/
inductive Passes
    (request : Request) :
    List (Middleware σ) → σ → σ → σ → σ → Prop where
  | nil
      (before after : σ) :
      Passes request [] before before after after
  | cons
      {step : Middleware σ}
      {rest : List (Middleware σ)}
      {finish :
        Except Error Outcome → Run σ (Except Error Outcome)}
      {before entered start last left after : σ}
      {inner outcome : Outcome}
      (hEnter :
        (step request).Yields before (.pass finish) entered)
      (hRest : Passes request rest entered start last left)
      (hLeave :
        (finish (.ok inner)).Yields left (.ok outcome)
          after) :
      Passes request (step :: rest) before start last after

/-
  Faithful steps around a command succeed only if the
  command did where they led, and leave what it made as it
  is.
-/
theorem exists_command_of_chain
    {steps : List (Middleware σ)}
    (hFaithful : ∀ step ∈ steps, IsFaithful step)
    {request : Request}
    {command : Run (σ × τ) (Except Error Outcome)}
    {before after : σ}
    {kept last : τ}
    {outcome : Outcome}
    (hChain :
      Run.Yields (chain Run.onFirst request command steps)
        (before, kept) (.ok outcome) (after, last)) :
    ∃ start result finish,
      Passes request steps before start finish after ∧
      command.Yields (start, kept) (.ok result)
        (finish, last) := by
  induction steps generalizing before after outcome with
  | nil =>
      exact ⟨before, outcome, after, .nil before after, hChain⟩
  | cons step rest ih =>
      rw [chain, Run.yields_bind_iff] at hChain
      rcases hChain
        with ⟨decision, ⟨entered, same⟩, hStep, hRest⟩
      rw [Run.yields_onFirst_iff] at hStep
      rcases hStep with ⟨hStep, hSame⟩
      subst hSame
      have hStepFaithful :=
        hFaithful step List.mem_cons_self request before
          entered
      cases decision with
      | answer result =>
          rcases Run.yields_pure_iff.mp hRest
            with ⟨hResult, _⟩
          subst hResult
          exact absurd hStep (hStepFaithful.1 outcome)
      | pass finish =>
          rw [Run.yields_bind_iff] at hRest
          rcases hRest
            with ⟨result, ⟨left, made⟩, hInner, hLeave⟩
          rw [Run.yields_onFirst_iff] at hLeave
          rcases hLeave with ⟨hLeave, hMade⟩
          subst hMade
          cases result with
          | error error =>
              exact absurd hLeave
                (hStepFaithful.2 finish hStep error left
                  outcome after)
          | ok inner =>
              have hOthers :
                  ∀ other ∈ rest, IsFaithful other := by
                intro other hOther
                exact hFaithful other
                  (List.mem_cons_of_mem _ hOther)
              rcases ih hOthers hInner
                with ⟨start, last, ended, hPasses, hCommand⟩
              exact ⟨start, last, ended,
                .cons hStep hPasses hLeave, hCommand⟩

end Middleware

------------------------------------------------------------
-- Fetching
------------------------------------------------------------

namespace Bucket

variable {σ : Type}

/- A document that was fetched was read from a response. -/
theorem exists_fetched
    {session : Session σ}
    {schema : Schema}
    {location : Location}
    {options : ReadOptions}
    {before after : σ}
    {old new : schema.Document}
    {outcome : Outcome}
    (hFetch :
      Run.Yields
        (fetchDocument session schema location options)
        (before, old) (.ok outcome) (after, new)) :
    ∃ response,
      (session.fetch ⟨location, options⟩).Yields before
        (.ok response) after ∧
      response.notFound = false ∧
      schema.decodeDocument response.map response.context
          (.root location) old =
        (.ok (), new) := by
  rw [fetchDocument, Run.yields_bind_iff] at hFetch
  rcases hFetch
    with ⟨fetched, ⟨received, same⟩, hFirst, hRest⟩
  rw [Run.yields_onFirst_iff] at hFirst
  rcases hFirst with ⟨hFirst, hSame⟩
  subst hSame
  cases fetched with
  | error error => cases hRest
  | ok response =>
      simp only at hRest
      split at hRest
      · cases hRest
      · rename_i hFound
        simp only [Run.yields_bind_iff, Run.yields_get_iff,
          Run.yields_modify_iff] at hRest
        rcases hRest
          with ⟨_, _, ⟨rfl, rfl⟩, _, _, rfl, hLast⟩
        rcases hDecode :
            schema.decodeDocument response.map
              response.context (.root location) same
          with ⟨result, document⟩
        rw [hDecode] at hLast
        cases result with
        | error error => cases hLast
        | ok _ =>
            cases hLast
            exact ⟨response, hFirst,
              Bool.eq_false_iff.mpr hFound, hDecode⟩

/-
  After a fetch that succeeded, with faithful steps around
  it, the slots that reading reaches are bound to the place
  and the causal context of the document that was fetched
  where the steps led.
-/
theorem slotsBound_of_get
    {bucket : Bucket σ}
    (hFaithful :
      ∀ step ∈ bucket.middleware,
        Middleware.IsFaithful step)
    {session : Session σ}
    {schema : Schema}
    {key : String}
    {options : ReadOptions}
    {before after : σ}
    {old new : schema.Document}
    {outcome : Outcome}
    (hGet :
      Run.Yields (bucket.get session schema key options)
        (before, old) (.ok outcome) (after, new)) :
    ∃ response sent received,
      Middleware.Passes ⟨.get, bucket.location key⟩
        bucket.middleware before sent received after ∧
      (session.fetch
          ⟨bucket.location key, options⟩).Yields sent
        (.ok response) received ∧
      response.notFound = false ∧
      schema.SlotsBound new
        ⟨response.map, .root (bucket.location key),
          response.context⟩ := by
  unfold get at hGet
  split at hGet
  · cases hGet
  · rcases Middleware.exists_command_of_chain hFaithful hGet
      with ⟨sent, result, received, hPasses, hCommand⟩
    rcases exists_fetched hCommand
      with ⟨response, hFetch, hFound, hDecode⟩
    have hBound := schema.slotsBound_of_decode hDecode
    exact ⟨response, sent, received, hPasses, hFetch, hFound,
      hBound⟩

/- A slot of another document is bound to the one fetched. -/
theorem slotsBound_of_get_inner :
    let inner : Schema :=
      .stored "n" "n" (.slot .counter) .nil
    let schema : Schema :=
      .stored "in" "in" (.document inner) .nil
    let map : CrdtMap :=
      { CrdtMap.empty with maps := [("in", .empty)] }
    let transport : Transport Unit :=
      fun _ => return .ok (.fetched ⟨map, [1], false⟩)
    let session : Session Unit := ⟨transport, default⟩
    let passing : Middleware Unit :=
      fun _ => return .pass fun result => return result
    let bucket : Bucket Unit := ⟨"b", "t", [passing]⟩
    let elsewhere : Binding :=
      ⟨.root ⟨"b", "t", "old"⟩, "n", []⟩
    let old : schema.Document :=
      ((some (Counter.bound elsewhere), ()), ())
    let here : Binding :=
      ⟨(Path.root ⟨"b", "t", "k"⟩).child "in", "n", [1]⟩
    let new : schema.Document :=
      ((some (Counter.bound here), ()), ())
    (∀ step ∈ bucket.middleware,
      Middleware.IsFaithful step) ∧
    Run.Yields (bucket.get session schema "k" default)
      ((), old) (.ok ⟨"k", [1]⟩) ((), new) ∧
    ∃ response sent received,
      Middleware.Passes ⟨.get, bucket.location "k"⟩
        bucket.middleware () sent received () ∧
      (session.fetch ⟨bucket.location "k", default⟩).Yields
        sent (.ok response) received ∧
      response.notFound = false ∧
      schema.SlotsBound new
        ⟨response.map, .root (bucket.location "k"),
          response.context⟩ := by
  intro inner schema map transport session passing bucket
    elsewhere old here new
  have hFaithful :
      ∀ step ∈ bucket.middleware,
        Middleware.IsFaithful step := by
    intro step hStep
    have hSame := List.mem_singleton.mp hStep
    subst hSame
    intro request before after
    constructor
    · intro outcome hAnswer
      cases hAnswer
    · intro finish hPass error start outcome last hLeave
      cases hPass
      cases hLeave
  have hGet :
      Run.Yields (bucket.get session schema "k" default)
        ((), old) (.ok ⟨"k", [1]⟩) ((), new) := by
    rfl
  exact ⟨hFaithful, hGet, slotsBound_of_get hFaithful hGet⟩

/-
  Skipped slots stay as they were, as do all slots if a step
  answers the request itself, and slots in a document whose
  map is not there.
-/
theorem slots_kept_by_get :
    let inner : Schema :=
      .stored "n" "n" (.slot .counter) .nil
    let schema : Schema :=
      .skipped "own" (.slot .counter)
        (.stored "in" "in" (.document inner) .nil)
    let transport : Transport Unit :=
      fun _ => return .ok (.fetched ⟨.empty, [1], false⟩)
    let session : Session Unit := ⟨transport, default⟩
    let answering : Middleware Unit :=
      fun _ => return .answer (.ok ⟨"k", []⟩)
    let elsewhere : Binding :=
      ⟨.root ⟨"b", "t", "old"⟩, "n", []⟩
    let old : schema.Document :=
      (none, (some (Counter.bound elsewhere), ()), ())
    Run.Yields
        (get ⟨"b", "t", []⟩ session schema "k" default)
        ((), old) (.ok ⟨"k", [1]⟩) ((), old) ∧
    Run.Yields
        (get ⟨"b", "t", [answering]⟩ session inner "k"
          default)
        ((), (none, ())) (.ok ⟨"k", []⟩) ((), (none, ())) ∧
    elsewhere.path.location ≠ ⟨"b", "t", "k"⟩ := by
  refine ⟨rfl, rfl, ?_⟩
  decide

end Bucket

end CrdtDoc
