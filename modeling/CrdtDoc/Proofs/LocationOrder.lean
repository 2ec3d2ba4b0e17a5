import CrdtDoc.Proofs.DocumentOrder
import CrdtDoc.Proofs.StoreHistory

/-
  This file shows that the maps of a store are listed in the
  order of their locations, whatever is done with it.  So a
  store is the same in whatever order its maps are put to it
  one after the other.

  Key definitions include:
    * `Store.Ordered`
    * `Store.IsOrdered`

  Main declarations:
    * `Location.less_iff`
    * `Store.objects_ofObjects`
    * `Store.Executes.isOrdered`
    * `Store.isOrdered_after`
-/

namespace CrdtDoc

------------------------------------------------------------
-- The Order of Locations
------------------------------------------------------------

namespace Location

variable {a b c : Location}

/- Types are compared first, then buckets, and then keys. -/
theorem less_iff :
    a.less b = true ↔
      a.bucketType < b.bucketType ∨
      a.bucketType = b.bucketType ∧
        (a.bucket < b.bucket ∨
          a.bucket = b.bucket ∧ a.key < b.key) := by
  unfold less
  by_cases hType : a.bucketType = b.bucketType
  · by_cases hBucket : a.bucket = b.bucket <;>
      simp only [hType, hBucket, ne_eq, not_true_eq_false,
        not_false_eq_true, if_true, if_false,
        decide_eq_true_eq, String.lt_irrefl, false_or,
        true_and, false_and, or_false]
  · simp only [hType, ne_eq, not_false_eq_true, if_true,
      decide_eq_true_eq, false_and, or_false]

/- No location is before itself. -/
theorem less_irrefl
    (location : Location) :
    ¬location.less location = true := by
  rw [less_iff]
  rintro (hType | ⟨_, hBucket | ⟨_, hKey⟩⟩)
  · exact String.lt_irrefl _ hType
  · exact String.lt_irrefl _ hBucket
  · exact String.lt_irrefl _ hKey

/- What is before a location is before all those after. -/
theorem less_trans
    (hFirst : a.less b = true)
    (hSecond : b.less c = true) :
    a.less c = true := by
  rw [less_iff] at hFirst hSecond ⊢
  rcases hFirst with hType | ⟨hType, hFirst⟩
  · rcases hSecond with hNext | ⟨hNext, _⟩
    · exact Or.inl (String.lt_trans hType hNext)
    · exact Or.inl (hNext ▸ hType)
  · rw [hType]
    refine hSecond.imp id (And.imp id ?_)
    intro hSecond
    rcases hFirst with hBucket | ⟨hBucket, hKey⟩
    · rcases hSecond with hNext | ⟨hNext, _⟩
      · exact Or.inl (String.lt_trans hBucket hNext)
      · exact Or.inl (hNext ▸ hBucket)
    · rw [hBucket]
      exact hSecond.imp id
        (And.imp id (String.lt_trans hKey))

/- Of two locations one is first unless they are the same. -/
theorem less_of_ne
    (hNe : a ≠ b)
    (hNot : ¬a.less b = true) :
    b.less a = true := by
  rcases a with ⟨bucket, type, key⟩
  rcases b with ⟨bucket', type', key'⟩
  rw [less_iff] at hNot ⊢
  rcases Std.lt_trichotomy type type'
    with hType | hType | hType
  · exact absurd (Or.inl hType) hNot
  · refine Or.inr ⟨hType.symm, ?_⟩
    rcases Std.lt_trichotomy bucket bucket'
      with hBucket | hBucket | hBucket
    · exact absurd (Or.inr ⟨hType, Or.inl hBucket⟩) hNot
    · refine Or.inr ⟨hBucket.symm, ?_⟩
      rcases Std.lt_trichotomy key key'
        with hKey | hKey | hKey
      · exact absurd
          (Or.inr ⟨hType, Or.inr ⟨hBucket, hKey⟩⟩) hNot
      · exact absurd (by rw [hType, hBucket, hKey]) hNe
      · exact hKey
    · exact Or.inl hBucket
  · exact Or.inl hType

end Location

------------------------------------------------------------
-- The Order of Maps
------------------------------------------------------------

namespace Store

/- The maps of a store are listed by location. -/
def Ordered
    (objects : List (Location × StoredMap)) : Prop :=
  objects.Pairwise fun a b => a.1.less b.1 = true

variable {objects : List (Location × StoredMap)}
variable {location : Location} {stored : StoredMap}

/- After a put there is nothing new but what was put. -/
theorem mem_put
    {entry : Location × StoredMap}
    (hMem : entry ∈ put objects location stored) :
    entry = (location, stored) ∨ entry ∈ objects := by
  induction objects with
  | nil => exact Or.inl (List.mem_singleton.mp hMem)
  | cons first rest ih =>
      rcases first with ⟨other, old⟩
      rw [put] at hMem
      split at hMem
      · exact (List.mem_cons.mp hMem).imp id
          (List.mem_cons_of_mem _)
      · split at hMem
        · exact List.mem_cons.mp hMem
        · rcases List.mem_cons.mp hMem with hFirst | hRest
          · exact Or.inr (hFirst ▸ List.mem_cons_self)
          · exact (ih hRest).imp id (List.mem_cons_of_mem _)

/- A put keeps the order. -/
theorem Ordered.put
    (hOrdered : Ordered objects)
    (location : Location)
    (stored : StoredMap) :
    Ordered (Store.put objects location stored) := by
  induction objects with
  | nil => exact List.pairwise_singleton _ _
  | cons first rest ih =>
      rcases first with ⟨other, old⟩
      rcases List.pairwise_cons.mp hOrdered
        with ⟨hFirst, hRest⟩
      rw [Store.put]
      split
      · rename_i hSame
        exact List.pairwise_cons.mpr
          ⟨hSame ▸ hFirst, hRest⟩
      · rename_i hNe
        split
        · rename_i hLess
          refine List.pairwise_cons.mpr ⟨?_, hOrdered⟩
          intro entry hMem
          rcases List.mem_cons.mp hMem with hEq | hMem
          · exact hEq ▸ hLess
          · exact Location.less_trans hLess
              (hFirst entry hMem)
        · rename_i hNot
          refine List.pairwise_cons.mpr ⟨?_, ih hRest⟩
          intro entry hMem
          rcases mem_put hMem with hEq | hMem
          · exact hEq ▸ Location.less_of_ne hNe hNot
          · exact hFirst entry hMem

/- What is put to a new location joins the others. -/
theorem perm_put
    (hNew : ∀ entry ∈ objects, entry.1 ≠ location)
    (stored : StoredMap) :
    (put objects location stored).Perm
      ((location, stored) :: objects) := by
  induction objects with
  | nil => exact List.Perm.refl _
  | cons first rest ih =>
      rcases first with ⟨other, old⟩
      rcases List.forall_mem_cons.mp hNew
        with ⟨hFirst, hRest⟩
      rw [put, if_neg hFirst.symm]
      split
      · exact List.Perm.refl _
      · exact ((ih hRest).cons _).trans (List.Perm.swap _ _ _)

/- Maps of different locations are put beside each other. -/
theorem perm_foldl_put
    {listed before : List (Location × StoredMap)}
    (hDistinct :
      (listed ++ before).Pairwise fun a b => a.1 ≠ b.1) :
    (listed.foldl
        (fun objects (location, stored) =>
          put objects location stored)
        before).Perm (listed ++ before) := by
  induction listed generalizing before with
  | nil => exact List.Perm.refl _
  | cons entry rest ih =>
      rcases entry with ⟨location, stored⟩
      rcases List.pairwise_cons.mp hDistinct
        with ⟨hFirst, hRest⟩
      have hPut :=
        perm_put
          (fun entry hMem =>
            (hFirst entry
              (List.mem_append_right rest hMem)).symm)
          stored
      have hMoved :
          (rest ++ put before location stored).Perm
            ((location, stored) :: (rest ++ before)) :=
        (hPut.append_left rest).trans List.perm_middle
      have hNext :
          (rest ++ put before location stored).Pairwise
            fun a b => a.1 ≠ b.1 :=
        hMoved.symm.pairwise hDistinct fun hNe => hNe.symm
      exact (ih hNext).trans hMoved

/- However the maps of a store are listed, they are kept. -/
theorem objects_ofObjects
    (hOrdered : Ordered objects)
    {listed : List (Location × StoredMap)}
    (hListed : listed.Perm objects) :
    (ofObjects listed).objects = objects := by
  have hDistinct : listed.Pairwise fun a b => a.1 ≠ b.1 := by
    refine hListed.symm.pairwise ?_ fun hNe => hNe.symm
    refine hOrdered.imp ?_
    intro a b hLess hEq
    rw [hEq] at hLess
    exact Location.less_irrefl _ hLess
  have hPerm : (ofObjects listed).objects.Perm objects := by
    refine List.Perm.trans ?_ hListed
    rw [← List.append_nil listed] at hDistinct
    have hFold := perm_foldl_put hDistinct
    rw [List.append_nil] at hFold
    exact hFold
  have hKept : Ordered (ofObjects listed).objects := by
    have hAll (before : List (Location × StoredMap))
        (hBefore : Ordered before) :
        Ordered
          (listed.foldl
            (fun objects (location, stored) =>
              put objects location stored)
            before) := by
      clear hListed hDistinct hPerm
      induction listed generalizing before with
      | nil => exact hBefore
      | cons entry rest ih => exact ih _ (hBefore.put _ _)
    exact hAll [] List.Pairwise.nil
  refine hPerm.eq_of_pairwise ?_ hKept hOrdered
  intro a b _ _ hLess hGreater
  exact absurd (Location.less_trans hLess hGreater)
    (Location.less_irrefl _)

end Store

------------------------------------------------------------
-- Reachable Stores
------------------------------------------------------------

namespace Store

variable {newKey : Nat → String} {store : Store}

/-
  The maps of a store are listed by location, and so are
  their entries by name, at every depth.
-/
structure IsOrdered
    (store : Store) : Prop where
  locations : Ordered store.objects
  names : ∀ entry ∈ store.objects, entry.2.map.WellFormed

/- A store without maps is in order. -/
theorem isOrdered_empty :
    IsOrdered empty :=
  ⟨List.Pairwise.nil, List.forall_mem_nil _⟩

/- A map that is found is one of those listed. -/
theorem mem_of_find?
    {objects : List (Location × StoredMap)}
    {location : Location}
    {stored : StoredMap}
    (hFind : find? objects location = some stored) :
    (location, stored) ∈ objects := by
  induction objects with
  | nil => cases hFind
  | cons entry rest ih =>
      rcases entry with ⟨other, old⟩
      rw [find?, List.lookup_cons] at hFind
      split at hFind
      · rename_i hSame
        cases hFind
        rw [beq_iff_eq.mp hSame]
        exact List.mem_cons_self
      · exact List.mem_cons_of_mem _ (ih hFind)

/- A command keeps a store in order, whatever it comes to. -/
theorem Executes.isOrdered
    {command : Command}
    {result : Except Abort (Except TransportError Response)}
    {next : Store}
    (hExecutes : Executes newKey store command result next)
    (hStore : store.IsOrdered) :
    next.IsOrdered := by
  cases hExecutes with
  | refused _ error _ => exact ⟨hStore.locations, hStore.names⟩
  | fetched command _ => exact ⟨hStore.locations, hStore.names⟩
  | stopped command reason _ _ _ =>
      exact ⟨hStore.locations, hStore.names⟩
  | deleted command _ =>
      refine ⟨hStore.locations.filter _, ?_⟩
      intro entry hMem
      exact hStore.names entry (List.mem_filter.mp hMem).1
  | changed command stored _ _ hUpdated =>
      refine ⟨hStore.locations.put _ stored, ?_⟩
      intro entry hMem
      rcases mem_put hMem with hEq | hMem
      · subst hEq
        refine Update.wellFormed_of_apply command.update ?_
          (StoredMap.apply_of_update hUpdated)
        cases hFind :
            find? store.objects
              (command.location.keyed newKey
                store.issuedKeys) with
        | none => exact CrdtMap.wellFormed_empty
        | some before =>
            exact hStore.names _ (mem_of_find? hFind)
      · exact hStore.names entry hMem

/- Whatever is done with a store, it stays in order. -/
theorem isOrdered_after
    (hStore : store.IsOrdered)
    (actions : List Action) :
    (store.after newKey actions).IsOrdered := by
  unfold after
  induction actions generalizing store with
  | nil => exact hStore
  | cons action rest ih =>
      rw [List.foldl_cons]
      apply ih
      cases action with
      | send command =>
          exact (executes newKey store command).isOrdered
            hStore
      | takeLog => exact ⟨hStore.locations, hStore.names⟩

end Store

end CrdtDoc
