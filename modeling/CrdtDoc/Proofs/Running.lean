import CrdtDoc.Run

/-
  This file describes computations over a state by what they
  yield: a value and a later state, unless they stop.

  Key definitions include:
    * `Run.Yields`
    * `Run.afterAll`
    * `Run.Overflows`

  Computations are taken apart by:
    * `Run.run_bind`
    * `Run.onFirst_bind`
    * `Run.yields_pure_iff`
    * `Run.yields_get_iff`
    * `Run.yields_modify_iff`
    * `Run.yields_bind_iff`
    * `Run.yields_onFirst_iff`

  Rows of computations are taken apart by:
    * `Run.afterAll_append`
    * `Run.overflows_append_iff`
-/

namespace CrdtDoc

namespace Run

variable {σ τ α β : Type}

/- A computation yields a value, and a state after it. -/
def Yields
    (run : Run σ α)
    (before : σ)
    (value : α)
    (after : σ) : Prop :=
  run.run before = (.ok value, after)

variable {before after : σ} {value : α}

/- A value is yielded as it is. -/
theorem yields_pure_iff
    {given : α} :
    Yields (pure given) before value after ↔
      value = given ∧ after = before := by
  constructor
  · intro hYields
    cases hYields
    exact ⟨rfl, rfl⟩
  · rintro ⟨hValue, hState⟩
    rw [hValue, hState]
    rfl

/- The state itself is yielded as it is. -/
theorem yields_get_iff
    {shown : σ} :
    Yields (get : Run σ σ) before shown after ↔
      shown = before ∧ after = before := by
  constructor
  · intro hYields
    cases hYields
    exact ⟨rfl, rfl⟩
  · rintro ⟨hShown, hState⟩
    rw [hShown, hState]
    rfl

/- A change of the state shows in the state after it. -/
theorem yields_modify_iff
    {change : σ → σ}
    {done : PUnit} :
    Yields (modify change : Run σ PUnit) before done after ↔
      after = change before := by
  constructor
  · intro hYields
    cases hYields
    rfl
  · intro hState
    rw [hState]
    rfl

/- A stop of the first of two computations stops both. -/
theorem run_bind
    (first : Run σ α)
    (second : α → Run σ β)
    (before : σ) :
    (first >>= second).run before =
      match first.run before with
      | (.ok value, middle) => (second value).run middle
      | (.error reason, middle) => (.error reason, middle) := by
  rw [ExceptT.run_bind]
  change StateT.bind first.run _ before = _
  unfold StateT.bind
  rcases first.run before with ⟨outcome, middle⟩
  cases outcome <;> rfl

/- A state is shown and kept as it is. -/
theorem run_get
    (state : σ) :
    (get : Run σ σ).run state = (.ok state, state) := by
  rfl

/- The second of two computations starts after the first. -/
theorem yields_bind_iff
    {first : Run σ α}
    {second : α → Run σ β}
    {result : β} :
    Yields (first >>= second) before result after ↔
      ∃ value middle,
        first.Yields before value middle ∧
        (second value).Yields middle result after := by
  unfold Yields
  rw [run_bind]
  constructor
  · intro hYields
    rcases hFirst : first.run before with ⟨outcome, middle⟩
    rw [hFirst] at hYields
    cases outcome with
    | error reason => cases hYields
    | ok value => exact ⟨value, middle, rfl, hYields⟩
  · rintro ⟨value, middle, hFirst, hSecond⟩
    rw [hFirst]
    exact hSecond

/- Over the first part, a computation comes to the same. -/
theorem run_onFirst
    (run : Run σ α)
    (before : σ)
    (kept : τ) :
    (onFirst run : Run (σ × τ) α).run (before, kept) =
      ((run.run before).1, (run.run before).2, kept) := by
  rfl

/- Over the first part, two computations come in order. -/
theorem onFirst_bind
    (first : Run σ α)
    (second : α → Run σ β) :
    (onFirst (first >>= second) : Run (σ × τ) β) =
      onFirst first >>= fun value => onFirst (second value) := by
  funext ⟨state, own⟩
  change (onFirst (first >>= second)).run (state, own) =
    (onFirst first >>= fun value =>
      onFirst (second value)).run (state, own)
  rw [run_bind, run_onFirst, run_onFirst, run_bind]
  rcases first.run state with ⟨outcome, after⟩
  cases outcome <;> rfl

/- A computation over the first part keeps the second. -/
theorem yields_onFirst_iff
    {run : Run σ α}
    {kept last : τ} :
    Yields (onFirst run) (before, kept) value (after, last) ↔
      run.Yields before value after ∧ last = kept := by
  unfold Yields
  rw [run_onFirst]
  rcases run.run before with ⟨outcome, middle⟩
  constructor
  · intro hYields
    cases hYields
    exact ⟨rfl, rfl⟩
  · rintro ⟨hYields, hKept⟩
    cases hYields
    rw [hKept]

------------------------------------------------------------
-- Rows of Computations
------------------------------------------------------------

variable {action : Type}

/- The state after some actions, each a computation. -/
def afterAll
    (step : action → Run σ β)
    (start : σ)
    (actions : List action) : σ :=
  actions.foldl (fun state action =>
    ((step action).run state).2) start

/- Does one of some actions stop with a sum out of range? -/
def Overflows
    (step : action → Run σ β) : σ → List action → Prop
  | _, [] => False
  | state, action :: rest =>
      ((step action).run state).1 = .error .overflow ∨
      Overflows step ((step action).run state).2 rest

instance
    (result : Except Abort β) :
    Decidable (result = .error .overflow) :=
  match result with
  | .ok _ => isFalse nofun
  | .error .overflow => isTrue rfl
  | .error (.nameOfSet _) => isFalse nofun
  | .error (.nameOfRegister _) => isFalse nofun

instance decidableOverflows
    (step : action → Run σ β) :
    (state : σ) → (actions : List action) →
      Decidable (Overflows step state actions)
  | _, [] => inferInstanceAs (Decidable False)
  | state, action :: rest =>
      @instDecidableOr _ _ inferInstance
        (decidableOverflows step
          ((step action).run state).2 rest)

variable {step : action → Run σ β} {start : σ}

/- Later actions start from the state after the others. -/
theorem afterAll_append
    (actions others : List action) :
    afterAll step start (actions ++ others) =
      afterAll step (afterAll step start actions) others :=
  List.foldl_append

/- Actions overflow if the first do, or the others later. -/
theorem overflows_append_iff
    {actions others : List action} :
    Overflows step start (actions ++ others) ↔
      Overflows step start actions ∨
      Overflows step (afterAll step start actions)
        others := by
  induction actions generalizing start with
  | nil => exact (or_iff_right id).symm
  | cons action rest ih =>
      rw [List.cons_append, Overflows, Overflows, ih,
        or_assoc]
      rfl

/- The first of some actions that do not overflow do not. -/
theorem not_overflows_of_append
    {actions others : List action}
    (hOverflows :
      ¬Overflows step start (actions ++ others)) :
    ¬Overflows step start actions := by
  rw [overflows_append_iff, not_or] at hOverflows
  exact hOverflows.1

end Run

end CrdtDoc
