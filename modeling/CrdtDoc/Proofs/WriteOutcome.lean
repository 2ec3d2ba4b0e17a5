import CrdtDoc.Proofs.HandleFrame
import CrdtDoc.Proofs.SlotFilling

/-
  This file shows that the outcome of a write names what was
  written: a document that was stored, or an update that was
  made, is found under the key of its outcome, and its
  causal context is that of the outcome.

  Key definitions include:
    * `Bucket.Wrote`

  Main declarations:
    * `Store.exists_stored_of_change`
    * `Bucket.wrote_of_changeMap`
    * `Bucket.exists_wrote_of_storeEncoded`
    * `Bucket.wrote_of_succeeded`
-/

namespace CrdtDoc

variable {newKey : Nat → String} {config : Config}
variable {before after : Store}

------------------------------------------------------------
-- Written Documents
------------------------------------------------------------

/-
  An update was made under a key and is named by an outcome.

  The outcome has the key given, or a new one if it is
  empty.  The update was made to the document of that key,
  or to an empty one, and no other document is different.
  A fetch of the key finds what was made, with the context
  of the outcome, and getting a document that can be read
  has the same outcome again.
-/
structure Bucket.Wrote
    (newKey : Nat → String)
    (config : Config)
    (bucket : Bucket Store)
    (key : String)
    (update : Update)
    (before : Store)
    (outcome : Outcome)
    (after : Store) : Prop where
  key :
    outcome.key =
      if key = "" then newKey before.issuedKeys else key
  made :
    ∃ map,
      update.apply
          (before.document (bucket.location outcome.key)) =
        .ok map ∧
      after.stored? (bucket.location outcome.key) = some map
  others :
    ∀ other ≠ bucket.location outcome.key,
      Store.find? after.objects other =
        Store.find? before.objects other
  fetch :
    ∀ options, ∃ response last,
      (Session.fetch ⟨Store.execute newKey, config⟩
          ⟨bucket.location outcome.key, options⟩).Yields
        after (.ok response) last ∧
      response.notFound = false ∧
      response.context = outcome.context ∧
      after.stored? (bucket.location outcome.key) =
        some response.map
  get :
    outcome.key ≠ "" →
    ∀ schema options map old new,
      after.stored? (bucket.location outcome.key) =
        some map →
      Schema.decodeDocument schema map outcome.context
          (.root (bucket.location outcome.key)) old =
        (.ok (), new) →
      ∃ last,
        (bucket.get ⟨Store.execute newKey, config⟩ schema
            outcome.key options).Yields
          (after, old) (.ok outcome) (last, new)

------------------------------------------------------------
-- Single Updates
------------------------------------------------------------

/-
  A change that is answered was made to the map of its
  location, where a new key may stand in for an empty one.
-/
theorem Store.exists_stored_of_change
    {command : Change}
    {response : Changed}
    (hChange :
      (Session.change ⟨Store.execute newKey, config⟩
          command).Yields before (.ok response) after) :
    ∃ stored,
      let location :=
        command.location.keyed newKey before.issuedKeys
      before.poisoned = false ∧
      after.poisoned = false ∧
      ((find? before.objects location).getD .new).update
          command.update = .ok stored ∧
      after.objects = put before.objects location stored ∧
      response.generatedKey =
        command.location.generated? newKey
          before.issuedKeys ∧
      response.context = stored.context := by
  let sent : Change :=
    { command with
      options := command.options.or config.write }
  have hExecutes := before.executes newKey (.change sent)
  rw [Run.Yields, Session.run_change] at hChange
  generalize before.result newKey (.change sent) = answer
    at *
  generalize before.next newKey (.change sent) = next at *
  cases hExecutes with
  | refused _ error _ => cases hChange
  | stopped _ reason _ _ _ => cases hChange
  | changed _ stored hReadable _ hUpdated =>
      cases hChange
      exact ⟨stored, hReadable, hReadable, hUpdated, rfl,
        rfl, rfl⟩

/- A document that is stored is fetched with its version. -/
theorem Session.yields_fetch_of_find?
    {store : Store}
    {location : Location}
    {stored : StoredMap}
    (hReadable : store.poisoned = false)
    (hFind : Store.find? store.objects location = some stored)
    (options : ReadOptions) :
    (fetch ⟨Store.execute newKey, config⟩
        ⟨location, options⟩).Yields store
      (.ok ⟨stored.map, stored.context, false⟩)
      (store.logging
        (.fetch ⟨location, options.or config.read⟩)) := by
  rw [Run.Yields, run_fetch_of_readable hReadable, hFind]
  rfl

namespace Bucket

/- A fetched document that can be read is got. -/
theorem yields_fetchDocument
    {σ : Type}
    {session : Session σ}
    {schema : Schema}
    {location : Location}
    {options : ReadOptions}
    {before after : σ}
    {response : Fetched}
    (hFetch :
      (session.fetch ⟨location, options⟩).Yields before
        (.ok response) after)
    (hFound : response.notFound = false)
    {old new : schema.Document}
    (hDecode :
      schema.decodeDocument response.map response.context
          (.root location) old =
        (.ok (), new)) :
    (fetchDocument session schema location options).Yields
      (before, old) (.ok ⟨location.key, response.context⟩)
      (after, new) := by
  rw [fetchDocument, Run.yields_bind_iff]
  refine ⟨_, _, Run.yields_onFirst_iff.mpr ⟨hFetch, rfl⟩, ?_⟩
  simp only [hFound]
  rw [if_neg Bool.false_ne_true, Run.yields_bind_iff]
  refine ⟨_, _, Run.yields_get_iff.mpr ⟨rfl, rfl⟩, ?_⟩
  simp only [hDecode]
  rw [Run.yields_bind_iff]
  exact ⟨(), _, Run.yields_modify_iff.mpr rfl, rfl⟩

/- Without middleware, a document is only fetched. -/
theorem get_eq_of_middleware
    {σ : Type}
    {bucket : Bucket σ}
    (hMiddleware : bucket.middleware = [])
    {session : Session σ}
    {schema : Schema}
    {key : String}
    (hKey : key ≠ "")
    {options : ReadOptions} :
    bucket.get session schema key options =
      fetchDocument session schema (bucket.location key)
        options := by
  have hSome : key.isEmpty = false := by
    simpa using hKey
  rw [get, hSome, if_neg Bool.false_ne_true, run, hMiddleware,
    Middleware.chain]

variable {key : String} {outcome : Outcome}

/- An update is made under the key that it is named by. -/
theorem keyed_location
    {σ : Type}
    (bucket : Bucket σ)
    (key : String)
    (issued : Nat) :
    let location := bucket.location key
    let named := if key = "" then newKey issued else key
    location.keyed newKey issued = bucket.location named ∧
    (location.generated? newKey issued).getD key = named := by
  simp only [Location.keyed, Location.generated?, location]
  by_cases hKey : key = ""
  · simp only [hKey, if_true]
    exact ⟨rfl, rfl⟩
  · simp only [hKey, if_false]
    exact ⟨trivial, rfl⟩

/- A change that succeeds is named by its outcome. -/
theorem wrote_of_changeMap
    {bucket : Bucket Store}
    (hMiddleware : bucket.middleware = [])
    {command : Change}
    (hLocation : command.location = bucket.location key)
    (hChange :
      (changeMap ⟨Store.execute newKey, config⟩
          command).Yields before (.ok outcome) after) :
    bucket.Wrote newKey config key command.update before
      outcome after := by
  rw [changeMap, Run.yields_bind_iff] at hChange
  rcases hChange
    with ⟨error | response, middle, hSent, hRest⟩
  · cases hRest
  rcases Run.yields_pure_iff.mp hRest with ⟨hOutcome, hSame⟩
  subst hSame
  rcases Store.exists_stored_of_change hSent
    with ⟨stored, hReadable, hAfter, hUpdated, hObjects,
      hGenerated, hContext⟩
  rcases @keyed_location newKey _ bucket key
    before.issuedKeys with ⟨hKeyed, hNamed⟩
  rw [hLocation] at hUpdated hObjects hGenerated hOutcome
  have hKey :
      outcome.key =
        if key = "" then newKey before.issuedKeys
        else key := by
    rw [← hNamed, ← hGenerated, Except.ok.inj hOutcome]
    rfl
  have hOutcomeContext : outcome.context = stored.context := by
    rw [← hContext, Except.ok.inj hOutcome]
  rw [hKeyed, ← hKey] at hUpdated hObjects
  have hFind :
      Store.find? after.objects
        (bucket.location outcome.key) = some stored := by
    rw [hObjects, Store.find?_put, if_pos rfl]
  have hStored :
      after.stored? (bucket.location outcome.key) =
        some stored.map := by
    rw [Store.stored?_of_readable hAfter, hFind]
    rfl
  refine ⟨hKey, ⟨stored.map, ?_, hStored⟩, ?_, ?_, ?_⟩
  · rw [Store.document_of_readable hReadable]
    exact StoredMap.apply_of_update hUpdated
  · intro other hOther
    rw [hObjects, Store.find?_put, if_neg hOther]
  · intro options
    exact ⟨_, _,
      Session.yields_fetch_of_find? hAfter hFind options, rfl,
      hOutcomeContext.symm, hStored⟩
  · intro hNonempty schema options map old new hMap hDecode
    have hSame : stored.map = map := by
      rw [hStored] at hMap
      exact Option.some.inj hMap
    have hFetch :=
      @Session.yields_fetch_of_find? newKey config _ _ _
        hAfter hFind options
    rw [hOutcomeContext, ← hSame] at hDecode
    have hRead := yields_fetchDocument hFetch rfl hDecode
    rw [← get_eq_of_middleware hMiddleware hNonempty]
      at hRead
    rw [← hOutcomeContext] at hRead
    exact ⟨_, hRead⟩

------------------------------------------------------------
-- Successful Writes
------------------------------------------------------------

/- What is stored successfully was written before. -/
theorem exists_wrote_of_storeEncoded
    {bucket : Bucket Store}
    (hMiddleware : bucket.middleware = [])
    {filter : Filter}
    {options : WriteOptions}
    {result : Except EncodeFailure Encoded}
    (hStore :
      (storeEncoded ⟨Store.execute newKey, config⟩
          (bucket.location key) filter options result).Yields
        before (.ok outcome) after) :
    ∃ encoded,
      result = .ok encoded ∧
      bucket.Wrote newKey config key
        (filter.apply encoded.update) before outcome after := by
  rcases result with (error | reason) | encoded
  · cases hStore
  · cases hStore
  · exact ⟨encoded, rfl,
      wrote_of_changeMap hMiddleware rfl hStore⟩

/-
  A write that succeeds is named by its outcome, whether a
  document was stored, with its slots filled or not, or an
  update was made.  A document is stored as it was written,
  after the filter.
-/
theorem wrote_of_succeeded
    (newKey : Nat → String)
    (config : Config)
    {bucket : Bucket Store}
    (hMiddleware : bucket.middleware = [])
    (key : String)
    (before : Store) :
    let session : Session Store :=
      ⟨Store.execute newKey, config⟩
    let root := Path.root (bucket.location key)
    (∀ schema document filter options outcome after new,
      (bucket.set session schema key filter options).Yields
        (before, document) (.ok outcome) (after, new) →
      ∃ encoded,
        schema.encodeDocument document root = .ok encoded ∧
        bucket.Wrote newKey config key
          (filter.apply encoded.update) before outcome
          after) ∧
    (∀ schema document filter options outcome after,
      (bucket.setValue session schema document key filter
          options).Yields before (.ok outcome) after →
      ∃ encoded,
        schema.encodeDocument document root = .ok encoded ∧
        bucket.Wrote newKey config key
          (filter.apply encoded.update) before outcome
          after) ∧
    ∀ update context options outcome after,
      (bucket.mapOperation session update key context
          options).Yields before (.ok outcome) after →
      bucket.Wrote newKey config key update before outcome
        after := by
  intro session root
  refine ⟨?_, ?_, ?_⟩
  · intro schema document filter options outcome after new
      hSet
    rw [set, run, hMiddleware, Middleware.chain, Run.Yields,
      run_storeDocument] at hSet
    -- The state of the document is left out of the run.
    have hStore :
        (storeEncoded session (bucket.location key) filter
            options
            (schema.encodeDocumentBinding document
              root).1).Yields before (.ok outcome) after :=
      Prod.ext (Prod.ext_iff.mp hSet).1
        (Prod.ext_iff.mp (Prod.ext_iff.mp hSet).2).1
    rw [← Schema.fst_encodeDocumentBinding]
    exact exists_wrote_of_storeEncoded hMiddleware hStore
  · intro schema document filter options outcome after hSet
    rw [setValue, run, hMiddleware, Middleware.chain] at hSet
    exact exists_wrote_of_storeEncoded hMiddleware hSet
  · intro update context options outcome after hMade
    rw [mapOperation, run, hMiddleware, Middleware.chain]
      at hMade
    exact wrote_of_changeMap hMiddleware rfl hMade

/- A document is stored over another one, under a new key. -/
theorem wrote_of_succeeded_anew :
    let newKey (issued : Nat) :=
      if issued = 0 then "first" else "other"
    let schema : Schema :=
      .stored "n" "n" (.slot .counter)
        (.stored "f" "f" (.slot .flag) .nil)
    let document : schema.Document := (none, none, ())
    let bucket : Bucket Store := ⟨"b", "t", []⟩
    let map : CrdtMap :=
      { CrdtMap.empty with flags := [("f", true)] }
    let before : Store :=
      { Store.empty with
        objects :=
          [(⟨"b", "t", "first"⟩,
            ⟨map, ⟨1, by decide, by decide⟩⟩)] }
    let filter : Filter := ⟨[], [["f"]]⟩
    bucket.middleware = [] ∧
    ∃ outcome after new encoded,
      (bucket.set ⟨Store.execute newKey, .unset⟩ schema ""
          filter .unset).Yields
        (before, document) (.ok outcome) (after, new) ∧
      outcome.key = "first" ∧
      schema.encodeDocument document
          (.root (bucket.location "")) =
        .ok encoded ∧
      bucket.Wrote newKey .unset ""
        (filter.apply encoded.update) before outcome
        after := by
  intro newKey schema document bucket map before filter
  have hSet :
      ∃ outcome after new,
        (bucket.set ⟨Store.execute newKey, .unset⟩ schema ""
            filter .unset).Yields
          (before, document) (.ok outcome) (after, new) ∧
        outcome.key = "first" :=
    ⟨_, _, _, rfl, rfl⟩
  rcases hSet with ⟨outcome, after, new, hSet, hKey⟩
  rcases (wrote_of_succeeded newKey .unset rfl ""
    before).1 schema document filter .unset outcome after
    new hSet with ⟨encoded, hEncoded, hWrote⟩
  exact ⟨rfl, outcome, after, new, encoded, hSet, hKey,
    hEncoded, hWrote⟩

end Bucket

end CrdtDoc
