import Mathlib.Data.List.Forall2

/-
  This file describes computations that may fail, made one
  after the other: when both of two succeed, when one
  succeeds for every member of a list, and what a row of
  them does to a state.

  Main declarations:
    * `bind_eq_ok_iff`
    * `bind_eq_error_iff`
    * `mapM_eq_ok_iff`
    * `exists_result_of_mem`
    * `exists_item_of_mem`
    * `foldlM_induction`
-/

namespace CrdtDoc

variable {ε α β : Type}

/- Both of two computations succeed. -/
theorem bind_eq_ok_iff
    {first : Except ε α}
    {second : α → Except ε β}
    {result : β} :
    (first >>= second) = .ok result ↔
      ∃ middle,
        first = .ok middle ∧ second middle = .ok result := by
  cases first with
  | error failure =>
      constructor
      · intro hBind
        cases hBind
      · rintro ⟨middle, hFirst, _⟩
        cases hFirst
  | ok middle =>
      constructor
      · intro hBind
        exact ⟨middle, rfl, hBind⟩
      · rintro ⟨middle, hFirst, hSecond⟩
        cases hFirst
        exact hSecond

/- One of two computations fails, and then both do. -/
theorem bind_eq_error_iff
    {first : Except ε α}
    {second : α → Except ε β}
    {failure : ε} :
    (first >>= second) = .error failure ↔
      first = .error failure ∨
      ∃ middle,
        first = .ok middle ∧
        second middle = .error failure := by
  cases first with
  | error reason =>
      constructor
      · intro hBind
        cases hBind
        exact Or.inl rfl
      · rintro (hFirst | ⟨middle, hFirst, _⟩)
        · cases hFirst
          rfl
        · cases hFirst
  | ok middle =>
      constructor
      · intro hBind
        exact Or.inr ⟨middle, rfl, hBind⟩
      · rintro (hFirst | ⟨middle, hFirst, hSecond⟩)
        · cases hFirst
        · cases hFirst
          exact hSecond

/- A computation succeeds for all members of a list. -/
theorem mapM_eq_ok_iff
    {step : α → Except ε β}
    {items : List α}
    {results : List β} :
    items.mapM step = .ok results ↔
      List.Forall₂
        (fun item result => step item = .ok result)
        items results := by
  induction items generalizing results with
  | nil =>
      rw [List.mapM_nil, List.forall₂_nil_left_iff]
      constructor
      · intro hNil
        cases hNil
        rfl
      · intro hNil
        rw [hNil]
        rfl
  | cons item rest ih =>
      rw [List.mapM_cons, List.forall₂_cons_left_iff,
        bind_eq_ok_iff]
      constructor
      · rintro ⟨result, hItem, hRest⟩
        rcases bind_eq_ok_iff.mp hRest
          with ⟨others, hOthers, hResults⟩
        cases hResults
        exact ⟨result, others, hItem, ih.mp hOthers, rfl⟩
      · rintro ⟨result, others, hItem, hOthers, hResults⟩
        refine ⟨result, hItem, bind_eq_ok_iff.mpr ?_⟩
        exact ⟨others, ih.mpr hOthers, hResults ▸ rfl⟩

/- Each member of a list has a result. -/
theorem exists_result_of_mem
    {step : α → Except ε β}
    {items : List α}
    {results : List β}
    (hMap : items.mapM step = .ok results)
    {item : α}
    (hItem : item ∈ items) :
    ∃ result ∈ results, step item = .ok result := by
  have hPairs := mapM_eq_ok_iff.mp hMap
  clear hMap
  induction hPairs with
  | nil => cases hItem
  | @cons first result rest results hFirst _ ih =>
      rcases List.mem_cons.mp hItem with hEq | hRest
      · subst hEq
        exact ⟨result, List.mem_cons_self, hFirst⟩
      · rcases ih hRest with ⟨other, hOther, hStep⟩
        exact ⟨other, List.mem_cons_of_mem _ hOther, hStep⟩

/- Each result is that of a member of the list. -/
theorem exists_item_of_mem
    {step : α → Except ε β}
    {items : List α}
    {results : List β}
    (hMap : items.mapM step = .ok results)
    {result : β}
    (hResult : result ∈ results) :
    ∃ item ∈ items, step item = .ok result := by
  have hPairs := mapM_eq_ok_iff.mp hMap
  clear hMap
  induction hPairs with
  | nil => cases hResult
  | @cons item first rest results hFirst _ ih =>
      rcases List.mem_cons.mp hResult with hEq | hRest
      · subst hEq
        exact ⟨item, List.mem_cons_self, hFirst⟩
      · rcases ih hRest with ⟨other, hOther, hStep⟩
        exact ⟨other, List.mem_cons_of_mem _ hOther, hStep⟩

/- What every step keeps, a row of steps keeps. -/
theorem foldlM_induction
    {step : α → β → Except ε α}
    {items : List β}
    (holds : α → Prop)
    (hStep :
      ∀ state, ∀ item ∈ items, ∀ next,
        holds state → step state item = .ok next →
          holds next)
    {first last : α}
    (hFirst : holds first)
    (hFold : items.foldlM step first = .ok last) :
    holds last := by
  induction items generalizing first with
  | nil =>
      cases hFold
      exact hFirst
  | cons item rest ih =>
      rw [List.foldlM_cons] at hFold
      rcases bind_eq_ok_iff.mp hFold with ⟨next, hNext, hRest⟩
      have hHolds : holds next :=
        hStep first item List.mem_cons_self next hFirst hNext
      apply ih _ hHolds hRest
      intro state other hOther
      exact hStep state other (List.mem_cons_of_mem _ hOther)

end CrdtDoc
