import CrdtDoc.Integer

/-
  This file defines the tables of a document: values under
  keys that are integers or texts.  A sorted table lists its
  keys in ascending order, integers by value; any other one
  lists them as it likes, each once.

  Key definitions include:
    * `KeyType`
    * `KeyType.Value`
    * `KeyType.written`
    * `KeyType.parse?`
    * `Table`
    * `Table.insert`
    * `Table.change`
    * `Table.find?`
-/

namespace CrdtDoc

------------------------------------------------------------
-- Keys
------------------------------------------------------------

/- The type of a key. -/
inductive KeyType where
  | int (type : IntType)
  | text
deriving DecidableEq, Repr

namespace KeyType

/- The name of a type in error messages. -/
def name : KeyType → String
  | .int type => type.name
  | .text => "String"

/- The type of a name. -/
def ofName?
    (name : String) : Option KeyType :=
  if name = "String" then some .text
  else (IntType.ofName? name).map .int

/- The keys of a type. -/
def Value : KeyType → Type
  | .int type => Integer type
  | .text => String

instance : (key : KeyType) → DecidableEq key.Value
  | .int type => inferInstanceAs (DecidableEq (Integer type))
  | .text => inferInstanceAs (DecidableEq String)

/- The name that a key is stored under. -/
def written : (key : KeyType) → key.Value → String
  | .int _, value => Integer.text value
  | .text, value => value

/- The key that a stored name spells. -/
def parse? : (key : KeyType) → String → Option key.Value
  | .int type, name => Integer.parse? type name
  | .text, name => some name

/- Is a text before another one? -/
def lessText
    (a b : String) : Bool :=
  decide (a < b)

/- Of two different texts, one is before the other. -/
theorem lessText_of_ne
    {a b : String}
    (hNe : a ≠ b)
    (hNot : ¬lessText a b) :
    lessText b a := by
  simp only [lessText, decide_eq_true_eq] at *
  exact Decidable.byContradiction fun hBack =>
    hNe (String.le_antisymm (String.not_lt.mp hBack)
      (String.not_lt.mp hNot))

/- The order of keys: integers by value, texts as texts. -/
def less : (key : KeyType) → key.Value → key.Value → Bool
  | .int _, a, b => decide (Integer.toInt a < Integer.toInt b)
  | .text, a, b => lessText a b

/- No key is less than itself. -/
theorem less_irrefl
    (key : KeyType)
    (k : key.Value) :
    ¬key.less k k = true := by
  cases key with
  | int type =>
      simp only [less, decide_eq_true_eq]
      exact Int.lt_irrefl _
  | text =>
      simp only [less, lessText, decide_eq_true_eq]
      exact String.lt_irrefl k

/- A key that is between others is between them. -/
theorem less_trans
    (key : KeyType)
    {a b c : key.Value}
    (hFirst : key.less a b)
    (hSecond : key.less b c) :
    key.less a c := by
  cases key with
  | int type =>
      simp only [less, decide_eq_true_eq] at *
      omega
  | text =>
      simp only [less, lessText, decide_eq_true_eq] at *
      exact String.lt_trans hFirst hSecond

/- Of two different keys, one is less. -/
theorem less_of_ne
    (key : KeyType)
    {a b : key.Value}
    (hNe : a ≠ b)
    (hNot : ¬key.less a b) :
    key.less b a := by
  cases key with
  | int type =>
      simp only [less, decide_eq_true_eq] at *
      have hInt : Integer.toInt a ≠ Integer.toInt b :=
        fun h => hNe (Integer.ext h)
      omega
  | text => exact lessText_of_ne hNe hNot

end KeyType

------------------------------------------------------------
-- Tables
------------------------------------------------------------

/- How two keys may follow each other in a table. -/
def Table.Follows
    (sorted : Bool)
    (key : KeyType)
    (a b : key.Value) : Prop :=
  if sorted then key.less a b = true else a ≠ b

/- A table of values under keys. -/
structure Table
    (sorted : Bool)
    (key : KeyType)
    (α : Type) where
  entries : List (key.Value × α)
  follows :
    entries.Pairwise fun a b =>
      Table.Follows sorted key a.1 b.1

namespace Table

variable {sorted : Bool} {key : KeyType} {α : Type}

/- The table without entries. -/
def empty : Table sorted key α :=
  ⟨[], List.Pairwise.nil⟩

/- Put a value under a key, in the place of the key. -/
def insertSorted :
    List (key.Value × α) → key.Value → α →
      List (key.Value × α)
  | [], k, value => [(k, value)]
  | (first, old) :: rest, k, value =>
      if k = first then (k, value) :: rest
      else if key.less k first then
        (k, value) :: (first, old) :: rest
      else (first, old) :: insertSorted rest k value

/- Put a value under a key, a new key behind all others. -/
def insertLast :
    List (key.Value × α) → key.Value → α →
      List (key.Value × α)
  | [], k, value => [(k, value)]
  | (first, old) :: rest, k, value =>
      if k = first then (k, value) :: rest
      else (first, old) :: insertLast rest k value

/- An insertion adds no key but its own. -/
theorem mem_insertSorted
    {entries : List (key.Value × α)}
    {k : key.Value}
    {value : α}
    {entry : key.Value × α}
    (hMem : entry ∈ insertSorted entries k value) :
    entry.1 = k ∨ entry ∈ entries := by
  induction entries with
  | nil =>
      simp only [insertSorted, List.mem_singleton] at hMem
      exact Or.inl (hMem ▸ rfl)
  | cons first rest ih =>
      obtain ⟨other, old⟩ := first
      rw [insertSorted] at hMem
      split at hMem
      · rcases List.mem_cons.mp hMem with hEq | hRest
        · exact Or.inl (hEq ▸ rfl)
        · exact Or.inr (List.mem_cons_of_mem _ hRest)
      · split at hMem
        · rcases List.mem_cons.mp hMem with hEq | hRest
          · exact Or.inl (hEq ▸ rfl)
          · exact Or.inr hRest
        · rcases List.mem_cons.mp hMem with hEq | hRest
          · exact Or.inr (hEq ▸ List.mem_cons_self)
          · exact (ih hRest).imp id (List.mem_cons_of_mem _)

/- An insertion adds no key but its own. -/
theorem mem_insertLast
    {entries : List (key.Value × α)}
    {k : key.Value}
    {value : α}
    {entry : key.Value × α}
    (hMem : entry ∈ insertLast entries k value) :
    entry.1 = k ∨ entry ∈ entries := by
  induction entries with
  | nil =>
      simp only [insertLast, List.mem_singleton] at hMem
      exact Or.inl (hMem ▸ rfl)
  | cons first rest ih =>
      obtain ⟨other, old⟩ := first
      rw [insertLast] at hMem
      split at hMem
      · rcases List.mem_cons.mp hMem with hEq | hRest
        · exact Or.inl (hEq ▸ rfl)
        · exact Or.inr (List.mem_cons_of_mem _ hRest)
      · rcases List.mem_cons.mp hMem with hEq | hRest
        · exact Or.inr (hEq ▸ List.mem_cons_self)
        · exact (ih hRest).imp id (List.mem_cons_of_mem _)

/- An insertion keeps the order of keys. -/
theorem follows_insertSorted
    {entries : List (key.Value × α)}
    (hFollows :
      entries.Pairwise fun a b => key.less a.1 b.1 = true)
    (k : key.Value)
    (value : α) :
    (insertSorted entries k value).Pairwise
      fun a b => key.less a.1 b.1 = true := by
  induction entries with
  | nil => simp [insertSorted]
  | cons first rest ih =>
      obtain ⟨other, old⟩ := first
      obtain ⟨hHead, hRest⟩ := List.pairwise_cons.mp hFollows
      rw [insertSorted]
      split
      · rename_i hEq
        subst hEq
        exact List.pairwise_cons.mpr ⟨hHead, hRest⟩
      · rename_i hNe
        split
        · rename_i hLess
          refine List.pairwise_cons.mpr ⟨?_, hFollows⟩
          intro entry hMem
          rcases List.mem_cons.mp hMem with hEq | hMem
          · exact hEq ▸ hLess
          · exact key.less_trans hLess (hHead entry hMem)
        · rename_i hLess
          refine List.pairwise_cons.mpr ⟨?_, ih hRest⟩
          intro entry hMem
          rcases mem_insertSorted hMem with hEq | hMem
          · exact hEq ▸ key.less_of_ne hNe hLess
          · exact hHead entry hMem

/- An insertion keeps keys apart. -/
theorem follows_insertLast
    {entries : List (key.Value × α)}
    (hFollows : entries.Pairwise fun a b => a.1 ≠ b.1)
    (k : key.Value)
    (value : α) :
    (insertLast entries k value).Pairwise
      fun a b => a.1 ≠ b.1 := by
  induction entries with
  | nil => simp [insertLast]
  | cons first rest ih =>
      obtain ⟨other, old⟩ := first
      obtain ⟨hHead, hRest⟩ := List.pairwise_cons.mp hFollows
      rw [insertLast]
      split
      · rename_i hEq
        subst hEq
        exact List.pairwise_cons.mpr ⟨hHead, hRest⟩
      · rename_i hNe
        refine List.pairwise_cons.mpr ⟨?_, ih hRest⟩
        intro entry hMem
        rcases mem_insertLast hMem with hEq | hMem
        · exact hEq ▸ fun h => hNe h.symm
        · exact hHead entry hMem

/- Put a value under a key, in place of any before it. -/
def insert
    (table : Table sorted key α)
    (k : key.Value)
    (value : α) : Table sorted key α :=
  match sorted, table with
  | true, ⟨entries, follows⟩ =>
      ⟨insertSorted entries k value, by
        simpa [Follows] using
          follows_insertSorted (by simpa [Follows] using follows)
            k value⟩
  | false, ⟨entries, follows⟩ =>
      ⟨insertLast entries k value, by
        simpa [Follows] using
          follows_insertLast (by simpa [Follows] using follows)
            k value⟩

/-
  Change the values under keys one after the other, along
  with a state, until a change fails.
-/
def changeEntries
    {ε σ : Type}
    (change : key.Value → α → σ → Except ε σ × α) :
    List (key.Value × α) → σ →
      Except ε σ × List (key.Value × α)
  | [], state => (.ok state, [])
  | (k, value) :: rest, state =>
      match change k value state with
      | (.ok state, value) =>
          let (result, rest) := changeEntries change rest state
          (result, (k, value) :: rest)
      | (.error failure, value) =>
          (.error failure, (k, value) :: rest)

/- Changes of values keep the keys. -/
theorem keys_changeEntries
    {ε σ : Type}
    (change : key.Value → α → σ → Except ε σ × α)
    (entries : List (key.Value × α))
    (state : σ) :
    (changeEntries change entries state).2.map Prod.fst =
      entries.map Prod.fst := by
  induction entries generalizing state with
  | nil => rfl
  | cons entry rest ih =>
      obtain ⟨k, value⟩ := entry
      rw [changeEntries]
      split
      · rename_i next _ _
        simp only [List.map_cons, ih next]
      · rfl

/-
  The table with its values changed one after the other, and
  what the last change left.
-/
def change
    {ε σ : Type}
    (change : key.Value → α → σ → Except ε σ × α)
    (table : Table sorted key α)
    (state : σ) : Except ε σ × Table sorted key α :=
  let changed := changeEntries change table.entries state
  (changed.1, ⟨changed.2, by
    have hFollows := List.pairwise_map.mpr table.follows
    rw [← keys_changeEntries change table.entries state]
      at hFollows
    exact List.pairwise_map.mp hFollows⟩)

/- The value under a key. -/
def find?
    (table : Table sorted key α)
    (k : key.Value) : Option α :=
  table.entries.lookup k

/- A key has the value that was put under it last. -/
theorem lookup_insertSorted
    (entries : List (key.Value × α))
    (k other : key.Value)
    (value : α) :
    (insertSorted entries k value).lookup other =
      if other = k then some value
      else entries.lookup other := by
  induction entries with
  | nil =>
      by_cases hEq : other = k <;>
        simp [insertSorted, List.lookup_cons, hEq,
          beq_eq_false_iff_ne.mpr]
  | cons entry rest ih =>
      obtain ⟨first, old⟩ := entry
      rw [insertSorted]
      split
      · rename_i hFirst
        subst hFirst
        by_cases hEq : other = k <;>
          simp [List.lookup_cons, hEq,
            beq_eq_false_iff_ne.mpr]
      · rename_i hFirst
        split
        · by_cases hEq : other = k <;>
            simp [List.lookup_cons, hEq,
              beq_eq_false_iff_ne.mpr]
        · rw [List.lookup_cons, List.lookup_cons, ih]
          by_cases hEq : other = k
          · simp [hEq, beq_eq_false_iff_ne.mpr hFirst]
          · simp [hEq]

/- A key has the value that was put under it last. -/
theorem lookup_insertLast
    (entries : List (key.Value × α))
    (k other : key.Value)
    (value : α) :
    (insertLast entries k value).lookup other =
      if other = k then some value
      else entries.lookup other := by
  induction entries with
  | nil =>
      by_cases hEq : other = k <;>
        simp [insertLast, List.lookup_cons, hEq,
          beq_eq_false_iff_ne.mpr]
  | cons entry rest ih =>
      obtain ⟨first, old⟩ := entry
      rw [insertLast]
      split
      · rename_i hFirst
        subst hFirst
        by_cases hEq : other = k <;>
          simp [List.lookup_cons, hEq,
            beq_eq_false_iff_ne.mpr]
      · rename_i hFirst
        rw [List.lookup_cons, List.lookup_cons, ih]
        by_cases hEq : other = k
        · simp [hEq, beq_eq_false_iff_ne.mpr hFirst]
        · simp [hEq]

/- A key has the value that was put under it last. -/
theorem find?_insert
    (table : Table sorted key α)
    (k other : key.Value)
    (value : α) :
    (table.insert k value).find? other =
      if other = k then some value else table.find? other := by
  cases sorted with
  | true => exact lookup_insertSorted table.entries k other value
  | false => exact lookup_insertLast table.entries k other value

/- The keys of a table are different. -/
theorem pairwise_ne
    (table : Table sorted key α) :
    table.entries.Pairwise fun a b => a.1 ≠ b.1 := by
  apply table.follows.imp
  intro a b hFollows hEq
  unfold Follows at hFollows
  split at hFollows
  · rw [hEq] at hFollows
    exact key.less_irrefl b.1 hFollows
  · exact hFollows hEq

/- A key has a value in a table if they are an entry of it. -/
theorem find?_eq_some_iff
    {table : Table sorted key α}
    {k : key.Value}
    {item : α} :
    table.find? k = some item ↔ (k, item) ∈ table.entries := by
  have hKeys := table.pairwise_ne
  unfold find?
  generalize table.entries = entries at hKeys ⊢
  induction entries with
  | nil => simp
  | cons first rest ih =>
      rcases first with ⟨other, value⟩
      rcases List.pairwise_cons.mp hKeys with ⟨hFirst, hRest⟩
      rw [List.lookup_cons, List.mem_cons]
      by_cases hEq : k = other
      · subst hEq
        simp only [beq_self_eq_true]
        constructor
        · intro hFind
          cases hFind
          exact Or.inl rfl
        · rintro (hSame | hMem)
          · cases hSame
            rfl
          · exact absurd rfl (hFirst (k, item) hMem)
      · rw [beq_eq_false_iff_ne.mpr hEq]
        refine (ih hRest).trans ⟨Or.inr, ?_⟩
        rintro (hSame | hMem)
        · cases hSame
          exact absurd rfl hEq
        · exact hMem

end Table

end CrdtDoc
