import CrdtDoc.Proofs.UntouchedSlots

/-
  This file follows a document that is stored again and
  again under one key while nobody touches its slots, and
  says what handles show that are loaded from the store
  afterwards.

  Key definitions include:
    * `Store.held`
    * `Store.shown`
    * `HandleKind.OverwrittenIf`
    * `PlacedSlot.IsUntouched`
    * `Bucket.Stores`
    * `Bucket.Sends`

  Main declarations:
    * `Bucket.stores_set`
    * `Bucket.Stores.overwrittenIf`
    * `Bucket.held_after_unwritable`
    * `Bucket.overwrittenIf_after_sets`
-/

namespace CrdtDoc

------------------------------------------------------------
-- Held Maps
------------------------------------------------------------

namespace Store

/- The map that a store holds, even if it cannot be read. -/
def held
    (store : Store)
    (location : Location) : CrdtMap :=
  ((find? store.objects location).getD .new).map

/- What the handles of an entry show that are loaded next. -/
def shown
    (store : Store)
    (kind : HandleKind)
    (binding : Binding) : kind.Value :=
  kind.shown
    (kind.load binding
      ((store.held binding.path.location).reach
        binding.path.segments))

/- What is shown is what is held in the entry. -/
theorem shown_eq
    (store : Store)
    (kind : HandleKind)
    (binding : Binding) :
    store.shown kind binding =
      kind.shownIn
        ((store.held binding.path.location).leaf
          binding.path.segments binding.name) :=
  kind.shown_load binding _

end Store

------------------------------------------------------------
-- Overwritten Entries
------------------------------------------------------------

namespace HandleKind

/-
  On some condition, an entry shows the state of a handle
  that was not read, and else the same as before.
-/
structure OverwrittenIf
    (kind : HandleKind)
    (binding : Binding)
    (condition : Prop)
    (before after : Store) : Prop where
  overwritten :
    condition →
      after.shown kind binding =
        kind.shown (kind.bound binding)
  kept :
    ¬condition →
      after.shown kind binding = before.shown kind binding

variable {kind : HandleKind} {binding : Binding}
variable {before middle after : Store}

/- Where the same is held, the same is shown. -/
theorem overwrittenIf_of_held
    (hHeld :
      after.held binding.path.location =
        before.held binding.path.location)
    {condition : Prop}
    (hNever : ¬condition) :
    kind.OverwrittenIf binding condition before after where
  overwritten hCondition := absurd hCondition hNever
  kept _ := by
    rw [Store.shown, Store.shown, hHeld]

/- Only the truth of the condition counts. -/
theorem OverwrittenIf.congr
    {condition other : Prop}
    (hFirst :
      kind.OverwrittenIf binding condition before after)
    (hOther : other ↔ condition) :
    kind.OverwrittenIf binding other before after := by
  rwa [propext hOther]

/- What was overwritten once stays so. -/
theorem OverwrittenIf.trans
    {condition other : Prop}
    (hFirst :
      kind.OverwrittenIf binding condition before middle)
    (hSecond :
      kind.OverwrittenIf binding other middle after) :
    kind.OverwrittenIf binding (condition ∨ other) before
      after where
  overwritten hOr := by
    by_cases hOther : other
    · exact hSecond.overwritten hOther
    · rw [hSecond.kept hOther]
      exact hFirst.overwritten (hOr.resolve_right hOther)
  kept hNot := by
    rw [not_or] at hNot
    rw [hSecond.kept hNot.2, hFirst.kept hNot.1]

end HandleKind

namespace PlacedSlot

/-
  A slot is as it was, if it was empty and nobody touched
  it: empty still, or filled when its document was stored.
-/
def IsUntouched
    (placed : PlacedSlot)
    (root : Path) : Prop :=
  placed.slot = none ∨
  placed.slot =
    some (placed.kind.bound (placed.binding root []))

variable {placed : PlacedSlot}

/- Storing fills an empty slot, unless it is to be kept. -/
theorem slot_bindIn_ne_none_iff
    (hNone : placed.slot = none)
    (root : Path)
    (mode : SlotMode) :
    (placed.bindIn root mode).slot ≠ none ↔
      mode = .filling := by
  cases mode with
  | filling =>
      exact iff_of_true (Option.some_ne_none _) rfl
  | keeping =>
      exact iff_of_false (not_not_intro hNone) nofun

/- A slot that storing filled counts as untouched. -/
theorem isUntouched_bindIn
    (hNone : placed.slot = none)
    (root : Path)
    (mode : SlotMode) :
    (placed.bindIn root mode).IsUntouched root := by
  cases mode with
  | keeping => exact Or.inl hNone
  | filling =>
      refine Or.inr ?_
      change Slot.orBound placed.slot _ _ = _
      rw [hNone]
      rfl

end PlacedSlot

namespace Bucket

variable {newKey : Nat → String} {config : Config}
variable {store after : Store}

/-
  A change of a map makes its update, or it does not succeed
  and no map is different.
-/
theorem changeMap_cases
    {command : Change}
    (hKey : command.location.key ≠ "")
    {result : Except Abort (Except Error Outcome)}
    (hRun :
      (changeMap ⟨Store.execute newKey, config⟩ command).run
        store = (result, after)) :
    (∃ outcome,
      result = .ok (.ok outcome) ∧
      command.update.apply (store.held command.location) =
        .ok (after.held command.location)) ∨
    (∀ outcome, result ≠ .ok (.ok outcome)) ∧
      after.objects = store.objects := by
  let sent : Change :=
    { command with
      options := command.options.or config.write }
  have hExecutes := store.executes newKey (.change sent)
  rw [changeMap, Run.run_bind, Session.run_change] at hRun
  generalize store.result newKey (.change sent) = answer at *
  generalize store.next newKey (.change sent) = next at *
  cases hExecutes with
  | refused _ error hRefused =>
      cases hRun
      exact Or.inr ⟨nofun, rfl⟩
  | stopped _ reason hReadable hAccepts hUpdated =>
      cases hRun
      exact Or.inr ⟨nofun, rfl⟩
  | changed _ stored hReadable hAccepts hUpdated =>
      have hLocation :
          sent.location.keyed newKey store.issuedKeys =
            command.location :=
        if_neg hKey
      rw [Store.updated, hLocation] at hUpdated
      rw [hLocation] at hRun
      cases hRun
      refine Or.inl ⟨_, rfl, ?_⟩
      unfold Store.held
      rw [Store.find?_put, if_pos rfl, Option.getD_some]
      exact StoredMap.apply_of_update hUpdated

------------------------------------------------------------
-- Single Runs
------------------------------------------------------------

/-
  What storing a document under a key comes to.  Either what
  was written is stored, as far as a filter lets it through;
  or it is refused; or the document cannot be written.
-/
inductive Stores
    (schema : Schema)
    (location : Location)
    (filter : Filter)
    (store : Store)
    (document : schema.Document) :
    Except Abort (Except Error Outcome) → Store →
      schema.Document → Prop where
  | stored
      (update : Update)
      (outcome : Outcome)
      (after : Store)
      (hEncode : schema.encode document .empty = .ok update)
      (hUpdate :
        (filter.apply update).apply (store.held location) =
          .ok (after.held location)) :
      Stores schema location filter store document
        (.ok (.ok outcome)) after
        (schema.fill document (.root location))
  | refused
      (update : Update)
      (result : Except Abort (Except Error Outcome))
      (after : Store)
      (hEncode : schema.encode document .empty = .ok update)
      (hResult : ∀ outcome, result ≠ .ok (.ok outcome))
      (hObjects : after.objects = store.objects) :
      Stores schema location filter store document result
        after (schema.fill document (.root location))
  | failed
      (failure : EncodeFailure)
      (result : Except Abort (Except Error Outcome))
      (index : Nat)
      (hEncode :
        schema.encode document .empty = .error failure)
      (hResult : ∀ outcome, result ≠ .ok (.ok outcome)) :
      Stores schema location filter store document result
        store
        (schema.fillFirst index document (.root location))

variable {schema : Schema} {document new : schema.Document}
variable {filter : Filter}

/- Every run comes to one of these. -/
theorem stores_set
    {name type key : String}
    (hKey : key ≠ "")
    {options : WriteOptions}
    {result : Except Abort (Except Error Outcome)}
    (hRun :
      (set ⟨name, type, []⟩ ⟨Store.execute newKey, config⟩
        schema key filter options).run (store, document) =
          (result, after, new)) :
    Stores schema ⟨name, type, key⟩ filter store document
      result after new := by
  let location : Location := ⟨name, type, key⟩
  have hFills :=
    schema.fills_encodeBinding document (.root location)
      .empty
  have hBinding :
      schema.encodeDocumentBinding document
          (.root location) =
        ((schema.encode document .empty).map fun update =>
            ⟨update.within [],
              schema.causalContext document⟩,
          (schema.encodeBinding document .filling
            (.root location) .empty).2) := by
    rw [← hFills.result]
    exact schema.encodeDocumentBinding_eq document _
  change (storeDocument _ schema location filter options).run
    _ = _ at hRun
  rw [run_storeDocument, hBinding] at hRun
  cases hEncode : schema.encode document .empty with
  | error failure =>
      rcases hFills.failed hEncode with ⟨index, _, hNew, _⟩
      rw [hEncode, hNew] at hRun
      cases failure with
      | codec error =>
          cases hRun
          exact .failed _ _ index hEncode nofun
      | abort reason =>
          cases hRun
          exact .failed _ _ index hEncode nofun
  | ok update =>
      let command :=
        storeCommand location filter options
          ⟨update.within [], schema.causalContext document⟩
      rcases hChange :
          (changeMap ⟨Store.execute newKey, config⟩
            command).run store
        with ⟨answer, next⟩
      rw [hEncode, (hFills.filled hEncode).1] at hRun
      change (((changeMap _ command).run store).1,
        ((changeMap _ command).run store).2, _) = _ at hRun
      rw [hChange] at hRun
      cases hRun
      rcases changeMap_cases hKey hChange
        with ⟨outcome, hResult, hUpdate⟩ | ⟨hResult, hObjects⟩
      · rw [hResult]
        exact .stored update outcome next hEncode hUpdate
      · exact .refused update answer next hEncode hResult
          hObjects

variable {mode : SlotMode} {placed : PlacedSlot}

/- What a slot writes is made of its entry, if let through. -/
theorem makes_leaf_of_encode
    (hNames : schema.HasDistinctNames)
    (hSlot : schema.HasSlot document mode placed)
    {update : Update}
    (hEncode : schema.encode document .empty = .ok update)
    {before after : CrdtMap}
    (hUpdate : (filter.apply update).apply before = .ok after) :
    Update.Entry.Makes
      (if filter.allows (placed.segments ++ [placed.name])
        then Slot.written placed.slot
        else .none)
      (before.leaf placed.segments placed.name)
      (after.leaf placed.segments placed.name) := by
  have hStored :=
    (schema.storedIn_of_encode hNames
      (fun name _ => Update.entry_empty name) hEncode).1
  have hWell :=
    schema.wellFormed_of_encode Update.wellFormed_empty
      hEncode
  rcases schema.exists_entry_of_storedIn hStored hSlot
    with ⟨node, hNode, hEntry⟩
  have hLeaf :
      update.leaf placed.segments placed.name =
        Slot.written placed.slot := by
    rw [Update.leaf, Update.reach, hNode, Option.getD_some,
      hEntry]
    rcases placed with ⟨kind, slot, segments, name⟩
    cases kind <;> rfl
  have hMakes :=
    Update.makes_leaf_of_apply
      (Filter.wellFormed_applyAt update hWell []) hUpdate
      placed.segments placed.name
  rwa [Filter.leaf_applyAt, List.nil_append, hLeaf] at hMakes

/-
  One run overwrites the entry of a slot that nobody touched
  if the slot was filled, its kind sends all it shows, and
  this is let through and stored.
-/
theorem Stores.overwrittenIf
    {location : Location}
    {result : Except Abort (Except Error Outcome)}
    (hStores :
      Stores schema location filter store document result
        after new)
    (hNames : schema.HasDistinctNames)
    (hSlot : schema.HasSlot document mode placed)
    (hUntouched : placed.IsUntouched (.root location)) :
    placed.kind.OverwrittenIf
      (placed.binding (.root location) [])
      ((placed.kind.sendsAll = true ∧ placed.slot ≠ none) ∧
        filter.allows (placed.segments ++ [placed.name]) ∧
        ∃ outcome, result = .ok (.ok outcome))
      store after := by
  cases hStores with
  | refused update _ _ hEncode hResult hObjects =>
      have hHeld :
          after.held location = store.held location := by
        rw [Store.held, hObjects, Store.held]
      apply HandleKind.overwrittenIf_of_held hHeld
      rintro ⟨_, _, outcome, hOutcome⟩
      exact hResult outcome hOutcome
  | failed failure _ index hEncode hResult =>
      apply HandleKind.overwrittenIf_of_held rfl
      rintro ⟨_, _, outcome, hOutcome⟩
      exact hResult outcome hOutcome
  | stored update outcome _ hEncode hUpdate =>
      have hMakes :=
        makes_leaf_of_encode hNames hSlot hEncode hUpdate
      constructor
      · rintro ⟨⟨hAll, hSome⟩, hAllows, _⟩
        rw [if_pos hAllows,
          hUntouched.resolve_left hSome] at hMakes
        have hShown :=
          HandleKind.shownIn_of_makes_bound hMakes
        rw [if_pos hAll] at hShown
        exact (Store.shown_eq _ _ _).trans hShown
      · intro hNot
        rw [Store.shown_eq, Store.shown_eq]
        by_cases hAllows :
            filter.allows (placed.segments ++ [placed.name])
        · rw [if_pos hAllows] at hMakes
          rcases hUntouched with hNone | hBound
          · rw [hNone] at hMakes
            exact HandleKind.shownIn_of_makes_empty hMakes
          · rw [hBound] at hMakes
            have hShown :=
              HandleKind.shownIn_of_makes_bound hMakes
            have hPart : ¬placed.kind.sendsAll = true := by
              intro hAll
              have hSome : placed.slot ≠ none := by
                rw [hBound]
                exact Option.some_ne_none _
              exact hNot
                ⟨⟨hAll, hSome⟩, hAllows, outcome, rfl⟩
            rw [if_neg hPart] at hShown
            exact hShown
        · rw [if_neg hAllows] at hMakes
          exact congrArg placed.kind.shownIn
            hMakes.eq_of_none

/- A slot is filled or kept, if its document can be written. -/
theorem Stores.hasSlot_bindIn
    {location : Location}
    {result : Except Abort (Except Error Outcome)}
    (hStores :
      Stores schema location filter store document result
        after new)
    (hSlot : schema.HasSlot document mode placed)
    {update : Update}
    (hEncode : schema.encode document .empty = .ok update) :
    schema.HasSlot new mode
      (placed.bindIn (.root location) mode) := by
  cases hStores with
  | stored _ _ _ _ _ => exact schema.hasSlot_fill hSlot _
  | refused _ _ _ _ _ _ => exact schema.hasSlot_fill hSlot _
  | failed failure _ _ hFailure _ =>
      rw [hFailure] at hEncode
      cases hEncode

/- A slot that storing leaves as it is is still there. -/
theorem Stores.hasSlot_of_bindIn_eq
    {location : Location}
    {result : Except Abort (Except Error Outcome)}
    (hStores :
      Stores schema location filter store document result
        after new)
    (hSlot : schema.HasSlot document mode placed)
    (hFixed : placed.bindIn (.root location) mode = placed) :
    schema.HasSlot new mode placed := by
  have hFill := schema.hasSlot_fill hSlot (.root location)
  rw [hFixed] at hFill
  cases hStores with
  | stored _ _ _ _ _ => exact hFill
  | refused _ _ _ _ _ _ => exact hFill
  | failed _ _ index _ _ =>
      rcases schema.exists_hasSlot_fillFirst hSlot index
        (.root location) with ⟨same, hSame, hOr, _⟩
      rw [hFixed, or_self] at hOr
      exact hOr ▸ hSame

------------------------------------------------------------
-- Many Runs
------------------------------------------------------------

/- Store a document with a filter and options. -/
def setWith
    {σ : Type}
    (bucket : Bucket σ)
    (session : Session σ)
    (schema : Schema)
    (key : String)
    (run : Filter × WriteOptions) :
    Run (σ × schema.Document) (Except Error Outcome) :=
  bucket.set session schema key run.1 run.2

/- Does one of some runs succeed and let a path through? -/
def Sends
    {τ : Type}
    (step :
      Filter × WriteOptions → Run τ (Except Error Outcome))
    (path : List String) :
    τ → List (Filter × WriteOptions) → Prop
  | _, [] => False
  | state, run :: rest =>
      (run.1.allows path ∧
        ∃ outcome,
          ((step run).run state).1 = .ok (.ok outcome)) ∨
      Sends step path ((step run).run state).2 rest

section Runs

variable {name type key : String}

/-
  A document that cannot be written cannot be written later
  either, and nothing is stored.
-/
theorem held_after_unwritable
    (hNames : schema.HasDistinctNames)
    (hKey : key ≠ "")
    (path : List String)
    (runs : List (Filter × WriteOptions))
    {failure : EncodeFailure}
    (hEncode :
      schema.encode document .empty = .error failure) :
    let location : Location := ⟨name, type, key⟩
    let step :=
      setWith ⟨name, type, []⟩
        ⟨Store.execute newKey, config⟩ schema key
    (Run.afterAll step (store, document) runs).1.held
        location =
      store.held location ∧
    ¬Sends step path (store, document) runs := by
  intro location step
  induction runs generalizing store document failure with
  | nil => exact ⟨rfl, id⟩
  | cons run rest ih =>
      rcases hRun : (step run).run (store, document)
        with ⟨result, next, new⟩
      have hStores := stores_set hKey hRun
      cases hStores with
      | stored update _ _ hUpdate _ =>
          rw [hUpdate] at hEncode
          cases hEncode
      | refused update _ _ hUpdate _ _ =>
          rw [hUpdate] at hEncode
          cases hEncode
      | failed _ _ index _ hResult =>
          -- To fill slots does not make it possible to write.
          cases hAgain :
              schema.encode
                (schema.fillFirst index document
                  (.root location)) .empty with
          | ok update =>
              rcases schema.exists_encode_of_fillFirst hNames
                (fun name _ => Update.entry_empty name)
                (fun name _ => Update.entry_empty name) hAgain
                with ⟨made, hMade⟩
              rw [hMade] at hEncode
              cases hEncode
          | error again =>
              have hRest := @ih store _ again hAgain
              rw [Run.afterAll, List.foldl_cons, Sends, hRun]
              refine ⟨hRest.1, ?_⟩
              rintro (⟨_, outcome, hOutcome⟩ | hSends)
              · exact hResult outcome hOutcome
              · exact hRest.2 hSends

/-
  Many runs overwrite the entry of a slot that they leave as
  it is if one of them does.
-/
theorem overwrittenIf_of_bindIn_eq
    (hNames : schema.HasDistinctNames)
    (hKey : key ≠ "")
    (runs : List (Filter × WriteOptions))
    (hSlot : schema.HasSlot document mode placed)
    (hFixed :
      placed.bindIn (.root ⟨name, type, key⟩) mode = placed)
    (hUntouched :
      placed.IsUntouched (.root ⟨name, type, key⟩)) :
    let step :=
      setWith ⟨name, type, []⟩
        ⟨Store.execute newKey, config⟩ schema key
    placed.kind.OverwrittenIf
      (placed.binding (.root ⟨name, type, key⟩) [])
      ((placed.kind.sendsAll = true ∧ placed.slot ≠ none) ∧
        Sends step (placed.segments ++ [placed.name])
          (store, document) runs)
      store (Run.afterAll step (store, document) runs).1 := by
  intro step
  induction runs generalizing store document with
  | nil =>
      exact HandleKind.overwrittenIf_of_held rfl And.right
  | cons run rest ih =>
      rcases hRun : (step run).run (store, document)
        with ⟨result, next, new⟩
      have hStores := stores_set hKey hRun
      have hFirst :=
        hStores.overwrittenIf hNames hSlot hUntouched
      -- The slot is the same in the document of the next run.
      have hRest :=
        @ih next new
          (hStores.hasSlot_of_bindIn_eq hSlot hFixed)
      rw [Run.afterAll, List.foldl_cons, Sends, hRun]
      exact (hFirst.trans hRest).congr and_or_left

/-
  The entry of a slot that was empty at first and that nobody
  touched, after a document was stored any number of times.
  That of a counter or a set shows the same as before, and so
  does that of a slot in a table.  Any other flag or register
  shows the same as before until one run after the first is
  successful and lets it through; from then on it shows the
  state of a handle that was never read.
-/
theorem overwrittenIf_after_sets
    (hNames : schema.HasDistinctNames)
    (hKey : key ≠ "")
    (hSlot : schema.HasSlot document mode placed)
    (hNone : placed.slot = none)
    (runs : List (Filter × WriteOptions)) :
    let step :=
      setWith ⟨name, type, []⟩
        ⟨Store.execute newKey, config⟩ schema key
    let first :=
      Run.afterAll step (store, document) (runs.take 1)
    let last := Run.afterAll step (store, document) runs
    placed.kind.OverwrittenIf
      (placed.binding (.root ⟨name, type, key⟩) [])
      ((placed.kind.sendsAll = true ∧ mode = .filling) ∧
        Sends step (placed.segments ++ [placed.name]) first
          (runs.drop 1))
      store last.1 := by
  intro step
  cases runs with
  | nil =>
      exact HandleKind.overwrittenIf_of_held rfl And.right
  | cons run rest =>
      intro first last
      let root := Path.root ⟨name, type, key⟩
      rcases hRun : (step run).run (store, document)
        with ⟨result, next, new⟩
      have hFirstRun : first = (next, new) := by
        change ((step run).run _).2 = _
        rw [hRun]
      have hLast :
          last = Run.afterAll step (next, new) rest := by
        change Run.afterAll step ((step run).run _).2 rest = _
        rw [hRun]
      have hStores := stores_set hKey hRun
      -- The first run meets an empty slot, which is harmless;
      -- the others meet the slot as the first one left it.
      have hFirst :=
        (hStores.overwrittenIf hNames hSlot
          (Or.inl hNone)).congr
          (iff_false_intro fun hSent => hSent.1.2 hNone).symm
      cases hEncode : schema.encode document .empty with
      | error failure =>
          rcases held_after_unwritable hNames hKey _
            (run :: rest) hEncode with ⟨hHeld, hNever⟩
          apply HandleKind.overwrittenIf_of_held hHeld
          rintro ⟨_, hSends⟩
          rw [Sends, hRun] at hNever
          rw [hFirstRun] at hSends
          exact hNever (Or.inr hSends)
      | ok update =>
          have hFilled := hStores.hasSlot_bindIn hSlot hEncode
          have hRest :
              placed.kind.OverwrittenIf
                (placed.binding root [])
                ((placed.kind.sendsAll = true ∧
                  (placed.bindIn root mode).slot ≠ none) ∧
                Sends step (placed.segments ++ [placed.name])
                  (next, new) rest)
                next
                (Run.afterAll step (next, new) rest).1 :=
            overwrittenIf_of_bindIn_eq hNames hKey rest
              hFilled (placed.bindIn_bindIn root mode)
              (PlacedSlot.isUntouched_bindIn hNone root mode)
          rw [PlacedSlot.slot_bindIn_ne_none_iff hNone]
            at hRest
          rw [hFirstRun, hLast]
          have hBoth := hFirst.trans hRest
          rwa [false_or] at hBoth

end Runs

/- A flag in a document within is stored twice. -/
theorem overwrittenIf_after_sets_within :
    let inner : Schema := .stored "f" "f" (.slot .flag) .nil
    let schema : Schema :=
      .stored "in" "in" (.document inner) .nil
    let document : schema.Document := ((none, ()), ())
    let placed : PlacedSlot := ⟨.flag, none, ["in"], "f"⟩
    let flags : CrdtMap :=
      { CrdtMap.empty with flags := [("f", true)] }
    let map : CrdtMap :=
      { CrdtMap.empty with maps := [("in", flags)] }
    let store : Store :=
      { Store.empty with
        objects :=
          [(⟨"b", "t", "k"⟩,
            ⟨map, ⟨1, by decide, by decide⟩⟩)] }
    let newKey (_ : Nat) := "new"
    let step :=
      setWith ⟨"b", "t", []⟩
        ⟨Store.execute newKey, .unset⟩ schema "k"
    let runs : List (Filter × WriteOptions) :=
      [(.all, .unset), (⟨[["in"]], []⟩, .unset)]
    let first :=
      Run.afterAll step (store, document) (runs.take 1)
    let last := Run.afterAll step (store, document) runs
    (schema.HasDistinctNames ∧
      "k" ≠ "" ∧
      schema.HasSlot document .filling placed ∧
      placed.slot = none) ∧
    placed.kind.OverwrittenIf
      (placed.binding (.root ⟨"b", "t", "k"⟩) [])
      ((placed.kind.sendsAll = true ∧
        SlotMode.filling = .filling) ∧
        Sends step ["in", "f"] first (runs.drop 1))
      store last.1 := by
  intro inner schema document placed flags map store newKey
    step runs first last
  have hNames : schema.HasDistinctNames :=
    ⟨List.not_mem_nil,
      ⟨List.not_mem_nil, trivial, trivial⟩, trivial⟩
  have hKey : "k" ≠ "" := by
    decide
  have hSlot :
      schema.HasSlot document .filling placed :=
    Or.inl ⟨⟨.flag, none, [], "f"⟩, Or.inl ⟨rfl, rfl⟩, rfl⟩
  exact ⟨⟨hNames, hKey, hSlot, rfl⟩,
    overwrittenIf_after_sets hNames hKey hSlot rfl runs⟩

/-
  A flag and a register are kept by the first of two runs,
  and lost by the second, though nobody touched their slots.
-/
theorem lost_after_sets :
    let schema : Schema :=
      .stored "f" "f" (.slot .flag)
        (.stored "r" "r" (.slot .register) .nil)
    let document : schema.Document := (none, none, ())
    let location : Location := ⟨"b", "t", "k"⟩
    let map : CrdtMap :=
      { CrdtMap.empty with
        registers := [("r", [97, 98])]
        flags := [("f", true)] }
    let store : Store :=
      { Store.empty with
        objects :=
          [(location, ⟨map, ⟨1, by decide, by decide⟩⟩)] }
    let newKey (_ : Nat) := "new"
    let step :=
      setWith ⟨"b", "t", []⟩
        ⟨Store.execute newKey, .unset⟩ schema "k"
    let run : Filter × WriteOptions := (.all, .unset)
    let once := Run.afterAll step (store, document) [run]
    let twice :=
      Run.afterAll step (store, document) [run, run]
    let flag : Binding := ⟨.root location, "f", []⟩
    let register : Binding := ⟨.root location, "r", []⟩
    schema.HasDistinctNames ∧
    once.1.shown .flag flag = true ∧
    once.1.shown .register register = [97, 98] ∧
    store.shown .flag flag = true ∧
    twice.1.shown .flag flag = false ∧
    store.shown .register register = [97, 98] ∧
    twice.1.shown .register register = [] := by
  refine ⟨?_, rfl, rfl, rfl, rfl, rfl, rfl⟩
  exact ⟨by decide, trivial, List.not_mem_nil, trivial,
    trivial⟩

end Bucket

end CrdtDoc
