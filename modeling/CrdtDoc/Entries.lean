/-
  This file defines sections: values under names, listed by
  ascending name.  A section has a single view, the value
  under a name (`Entries.find?`), and two ascending sections
  with the same view are the same.

  Key definitions include:
    * `Entries`
    * `Entries.find?`
    * `Entries.insert`
    * `Entries.names`
    * `Entries.Ascending`

  The view and the order are described by:
    * `Entries.find?_insert`
    * `Entries.ascending_insert`
    * `Entries.ext`
-/

namespace CrdtDoc

/-
  Values under names.  Names stand in the order of their
  code points, which is also that of their UTF-8 bytes.
-/
abbrev Entries (α : Type) :=
  List (String × α)

namespace Entries

variable {α β : Type}

------------------------------------------------------------
-- Operations
------------------------------------------------------------

/- The value under a name. -/
def find? : Entries α → String → Option α
  | [], _ => none
  | (key, value) :: rest, name =>
      if key = name then some value else find? rest name

/- Does a name have a value? -/
def contains
    (entries : Entries α)
    (name : String) : Bool :=
  (entries.find? name).isSome

/- Put a value under a name, in place of any before it. -/
def insert : Entries α → String → α → Entries α
  | [], name, value => [(name, value)]
  | (key, old) :: rest, name, value =>
      if name < key then (name, value) :: (key, old) :: rest
      else if name = key then (name, value) :: rest
      else (key, old) :: insert rest name value

/- The names of a section. -/
def names
    (entries : Entries α) : List String :=
  entries.map Prod.fst

/- The section of a list of pairs, of which the later win. -/
def ofList
    (pairs : List (String × α)) : Entries α :=
  pairs.foldl (fun entries (name, value) =>
    insert entries name value) []

/- The names of a section ascend. -/
def Ascending
    (entries : Entries α) : Prop :=
  entries.Pairwise fun a b => a.1 < b.1

------------------------------------------------------------
-- The View
------------------------------------------------------------

/- An insertion shows at its name and at no other. -/
theorem find?_insert
    (entries : Entries α)
    (name other : String)
    (value : α) :
    find? (insert entries name value) other =
      if name = other then some value
      else find? entries other := by
  induction entries with
  | nil => rfl
  | cons entry rest ih =>
      obtain ⟨key, old⟩ := entry
      rw [insert]
      split
      · rfl
      · split
        · rename_i hKey
          subst hKey
          by_cases hOther : name = other <;>
            simp [find?, hOther]
        · rename_i hKey
          by_cases hOther : key = other
          · subst hOther
            simp [find?, hKey]
          · simp [find?, hOther, ih]

/- Where a name has no value, it is not listed. -/
theorem find?_eq_none_iff
    {entries : Entries α}
    {name : String} :
    find? entries name = none ↔ name ∉ names entries := by
  induction entries with
  | nil => simp [find?, names]
  | cons entry rest ih =>
      obtain ⟨key, value⟩ := entry
      by_cases hKey : key = name
      · simp [find?, names, hKey]
      · have hKey' : ¬name = key := fun h => hKey h.symm
        simpa [find?, names, hKey, hKey'] using ih

------------------------------------------------------------
-- The Order
------------------------------------------------------------

/- An insertion adds no name but its own. -/
theorem mem_names_insert
    {entries : Entries α}
    {name key : String}
    {value : α}
    (hKey : key ∈ names (insert entries name value)) :
    key = name ∨ key ∈ names entries := by
  induction entries with
  | nil => simpa [insert, names] using hKey
  | cons entry rest ih =>
      obtain ⟨first, old⟩ := entry
      rw [insert] at hKey
      split at hKey
      · simpa [names] using hKey
      · split at hKey
        · simp only [names, List.map_cons,
            List.mem_cons] at hKey ⊢
          exact hKey.imp id Or.inr
        · simp only [names, List.map_cons,
            List.mem_cons] at hKey ih ⊢
          rcases hKey with hKey | hKey
          · exact Or.inr (Or.inl hKey)
          · exact (ih hKey).imp id Or.inr

/- Every name after the first of a section is greater. -/
theorem Ascending.lt_of_mem
    {first key : String}
    {old : α}
    {rest : Entries α}
    (hAsc : Ascending ((first, old) :: rest))
    (hKey : key ∈ names rest) :
    first < key := by
  obtain ⟨entry, hMem, hEq⟩ := List.mem_map.mp hKey
  exact hEq ▸ (List.pairwise_cons.mp hAsc).1 entry hMem

/- An insertion keeps the order. -/
theorem ascending_insert
    {entries : Entries α}
    (hAsc : Ascending entries)
    (name : String)
    (value : α) :
    Ascending (insert entries name value) := by
  induction entries with
  | nil => simp [insert, Ascending]
  | cons entry rest ih =>
      obtain ⟨key, old⟩ := entry
      have hRest := (List.pairwise_cons.mp hAsc).2
      rw [insert]
      split
      · rename_i hLess
        refine List.pairwise_cons.mpr ⟨?_, hAsc⟩
        intro other hOther
        rcases List.mem_cons.mp hOther with hEq | hMem
        · exact hEq ▸ hLess
        · exact String.lt_trans hLess
            ((List.pairwise_cons.mp hAsc).1 other hMem)
      · split
        · rename_i hEq
          subst hEq
          exact List.pairwise_cons.mpr
            ⟨(List.pairwise_cons.mp hAsc).1, hRest⟩
        · rename_i hLess hEq
          refine List.pairwise_cons.mpr ⟨?_, ih hRest⟩
          intro other hOther
          have hName :=
            mem_names_insert (List.mem_map_of_mem hOther)
          rcases hName with hName | hName
          · rw [hName]
            rcases String.le_total name key with hLe | hLe
            · exact absurd (String.le_antisymm hLe
                (String.not_lt.mp hLess)) hEq
            · exact Decidable.byContradiction fun hNot =>
                hEq (String.le_antisymm
                  (String.not_lt.mp hNot) hLe)
          · exact hAsc.lt_of_mem hName

/- Nothing precedes itself in a section. -/
theorem Ascending.find?_tail
    {first : String}
    {old : α}
    {rest : Entries α}
    (hAsc : Ascending ((first, old) :: rest)) :
    find? rest first = none := by
  rw [find?_eq_none_iff]
  intro hMem
  exact String.lt_irrefl first (hAsc.lt_of_mem hMem)

/- Ascending sections with the same view are the same. -/
theorem ext
    {left right : Entries α}
    (hLeft : Ascending left)
    (hRight : Ascending right)
    (hView : ∀ name, find? left name = find? right name) :
    left = right := by
  induction left generalizing right with
  | nil =>
      cases right with
      | nil => rfl
      | cons entry rest =>
          have hFirst := hView entry.1
          simp [find?] at hFirst
  | cons entry rest ih =>
      obtain ⟨key, value⟩ := entry
      cases right with
      | nil =>
          have hFirst := hView key
          simp [find?] at hFirst
      | cons entry' rest' =>
          obtain ⟨key', value'⟩ := entry'
          have hKey : key = key' := by
            refine Decidable.byContradiction fun hNe => ?_
            have hNe' : ¬key' = key := fun h => hNe h.symm
            have hAt := hView key
            have hAt' := hView key'
            simp only [find?, hNe, hNe', if_true,
              if_false] at hAt hAt'
            have hMem : key ∈ names rest' :=
              Decidable.byContradiction fun hNot => by
                rw [find?_eq_none_iff.mpr hNot] at hAt
                cases hAt
            have hMem' : key' ∈ names rest :=
              Decidable.byContradiction fun hNot => by
                rw [find?_eq_none_iff.mpr hNot] at hAt'
                cases hAt'
            exact String.lt_irrefl key (String.lt_trans
              (hLeft.lt_of_mem hMem') (hRight.lt_of_mem hMem))
          subst hKey
          have hValue := hView key
          simp only [find?, if_true, Option.some.injEq]
            at hValue
          subst hValue
          congr 1
          refine ih (List.pairwise_cons.mp hLeft).2
            (List.pairwise_cons.mp hRight).2 ?_
          intro name
          by_cases hName : key = name
          · subst hName
            rw [hLeft.find?_tail, hRight.find?_tail]
          · simpa [find?, hName] using hView name

end Entries

end CrdtDoc
