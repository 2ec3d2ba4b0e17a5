import CrdtDoc.Proofs.Sequencing

/-
  This file shows which failure a row of computations ends
  with: that of the first one that fails.  So a computation
  over a tree fails as the first fault in a list of all that
  it meets, if every part of it does.

  Key definitions include:
    * `failure?`

  Main declarations:
    * `failure?_bind`
    * `failure?_foldlM`
    * `failure?_mapM`
    * `findSome?_flatMap`
    * `exists_findSome?_iff`
-/

namespace CrdtDoc

variable {ε α β σ : Type}

------------------------------------------------------------
-- Single Computations
------------------------------------------------------------

/- The failure that a computation ended with, if any. -/
def failure? : Except ε α → Option ε
  | .ok _ => none
  | .error failure => some failure

/- A computation ended with its failure. -/
theorem failure?_eq_some_iff
    {result : Except ε α}
    {failure : ε} :
    failure? result = some failure ↔
      result = .error failure := by
  cases result with
  | ok value => simp [failure?]
  | error reason => simp [failure?]

/- A computation without a failure succeeded. -/
theorem failure?_eq_none_iff
    {result : Except ε α} :
    failure? result = none ↔ ∃ value, result = .ok value := by
  cases result with
  | ok value => simp [failure?]
  | error reason => simp [failure?]

/- What is made of a result has no part in a failure. -/
theorem failure?_map
    (result : Except ε α)
    (make : α → β) :
    failure? (result.map make) = failure? result := by
  cases result <;> rfl

/- Of two computations, the first that fails decides. -/
theorem failure?_bind
    {first : Except ε α}
    {second : α → Except ε β}
    {fault? : Option ε}
    (hSecond :
      ∀ middle,
        first = .ok middle →
          failure? (second middle) = fault?) :
    failure? (first >>= second) =
      (failure? first).or fault? := by
  cases first with
  | ok middle => exact hSecond middle rfl
  | error reason => rfl

------------------------------------------------------------
-- Rows of Computations
------------------------------------------------------------

/- The first fault in a list is in its head or its tail. -/
theorem findSome?_cons_eq_or
    (fault? : α → Option ε)
    (item : α)
    (rest : List α) :
    (item :: rest).findSome? fault? =
      (fault? item).or (rest.findSome? fault?) := by
  rw [List.findSome?_cons]
  cases fault? item <;> rfl

/-
  In a row of steps, the first that fails decides.  Whether
  a step fails may hang on what holds of the state and of
  the items that are left, which the steps before have kept.
-/
theorem failure?_foldlM
    {step : σ → β → Except ε σ}
    {fault? : β → Option ε}
    {Holds : σ → List β → Prop}
    (hStep :
      ∀ state item rest,
        Holds state (item :: rest) →
          failure? (step state item) = fault? item ∧
          ∀ next, step state item = .ok next →
            Holds next rest)
    {items : List β}
    {first : σ}
    (hFirst : Holds first items) :
    failure? (items.foldlM step first) =
      items.findSome? fault? := by
  induction items generalizing first with
  | nil => rfl
  | cons item rest ih =>
      obtain ⟨hItem, hNext⟩ := hStep first item rest hFirst
      rw [List.foldlM_cons, findSome?_cons_eq_or,
        failure?_bind fun next hRun => ih (hNext next hRun),
        hItem]

/- The first member of a list that fails decides. -/
theorem failure?_mapM
    (step : α → Except ε β)
    (items : List α) :
    failure? (items.mapM step) =
      items.findSome? fun item => failure? (step item) := by
  induction items with
  | nil => rfl
  | cons item rest ih =>
      have hRest :
          ∀ value, step item = .ok value →
            failure?
                (do
                  let values ← rest.mapM step
                  return value :: values) =
              rest.findSome? fun item =>
                failure? (step item) := by
        intro value _
        rw [← ih]
        cases rest.mapM step <;> rfl
      rw [List.mapM_cons, findSome?_cons_eq_or,
        failure?_bind hRest]

/- The first in rows, one behind the other, is in a row. -/
theorem findSome?_flatMap
    (make : α → List β)
    (fault? : β → Option ε)
    (items : List α) :
    (items.flatMap make).findSome? fault? =
      items.findSome? fun item =>
        (make item).findSome? fault? := by
  induction items with
  | nil => rfl
  | cons item rest ih =>
      rw [List.flatMap_cons, List.findSome?_append,
        findSome?_cons_eq_or, ih]

/- There is a first fault if there is one at all. -/
theorem exists_findSome?_iff
    {fault? : α → Option ε}
    {items : List α} :
    (∃ fault, items.findSome? fault? = some fault) ↔
      ∃ item ∈ items, ∃ fault, fault? item = some fault := by
  simp only [← Option.isSome_iff_exists]
  exact List.findSome?_isSome_iff

/- The first fault is one that no item before it has. -/
theorem findSome?_eq_some_iff_first
    {fault? : α → Option ε}
    {items : List α}
    {fault : ε} :
    items.findSome? fault? = some fault ↔
      ∃ front item back,
        items = front ++ item :: back ∧
        (∀ other ∈ front, ∀ reason,
          fault? other ≠ some reason) ∧
        fault? item = some fault := by
  rw [List.findSome?_eq_some_iff]
  simp only [← Option.eq_none_iff_forall_ne_some]
  constructor
  · rintro ⟨front, item, back, hItems, hFault, hFront⟩
    exact ⟨front, item, back, hItems, hFront, hFault⟩
  · rintro ⟨front, item, back, hItems, hFront, hFault⟩
    exact ⟨front, item, back, hItems, hFault, hFront⟩

end CrdtDoc
