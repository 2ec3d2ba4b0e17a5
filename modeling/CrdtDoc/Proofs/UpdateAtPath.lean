import CrdtDoc.Proofs.UpdatedEntry

/-
  This file describes updates of a single map within a
  document.  Such an update changes what that map holds, and
  makes the maps along its path where they are missing; all
  else that the document holds stays as it was.

  Key definitions include:
    * `Update.within`
    * `CrdtMap.reach`
    * `CrdtMap.putAt`
    * `CrdtMap.leaf`

  Main declarations:
    * `Update.modifyAt_empty`
    * `Update.apply_within`
    * `Update.leaf_of_apply_within`
-/

namespace CrdtDoc

------------------------------------------------------------
-- Maps at Paths
------------------------------------------------------------

namespace CrdtMap

/- The map that a path leads to, empty if it is missing. -/
def reach
    (map : CrdtMap)
    (path : List String) : CrdtMap :=
  (map.at? path).getD .empty

/- The map under a name, empty if it is missing. -/
def child
    (map : CrdtMap)
    (name : String) : CrdtMap :=
  (map.map? name).getD .empty

/- Put a map to a path, along which maps are made. -/
def putAt
    (map : CrdtMap)
    (new : CrdtMap) : List String → CrdtMap
  | [] => new
  | name :: rest =>
      { map with
        maps :=
          Entries.insert map.maps name
            ((map.child name).putAt new rest) }

/- What a document holds under a name, apart from maps. -/
def leaf
    (map : CrdtMap)
    (path : List String)
    (name : String) : Entry :=
  { (map.reach path).entry name with map := .none }

/- A map without entries has only empty maps within. -/
theorem reach_empty
    (path : List String) :
    empty.reach path = empty := by
  cases path <;> rfl

/- A path leads on from the map of its first name. -/
theorem reach_cons
    (map : CrdtMap)
    (name : String)
    (rest : List String) :
    map.reach (name :: rest) = (map.child name).reach rest := by
  unfold child
  rw [reach, at?]
  cases map.map? name with
  | none => exact (reach_empty rest).symm
  | some inner => rfl

/- A path leads on from where its start leads to. -/
theorem reach_append
    (map : CrdtMap)
    (path rest : List String) :
    map.reach (path ++ rest) =
      (map.reach path).reach rest := by
  induction path generalizing map with
  | nil => rfl
  | cons name others ih =>
      rw [List.cons_append, reach_cons, reach_cons, ih]

/- A path leads to an entry within the map of its first name. -/
theorem leaf_cons
    (map : CrdtMap)
    (first : String)
    (rest : List String)
    (name : String) :
    map.leaf (first :: rest) name =
      (map.child first).leaf rest name := by
  rw [leaf, reach_cons, leaf]

/- A path leads to the map that was put to it. -/
theorem at?_putAt
    (map new : CrdtMap)
    (path : List String) :
    (map.putAt new path).at? path = some new := by
  induction path generalizing map with
  | nil => rfl
  | cons name rest ih =>
      rw [putAt, at?, map?, Entries.find?_insert, if_pos rfl]
      exact ih _

/- The children of a map, one of which was put anew. -/
theorem child_putAt_cons
    (map new : CrdtMap)
    (name other : String)
    (rest : List String) :
    (map.putAt new (name :: rest)).child other =
      if name = other then (map.child name).putAt new rest
      else map.child other := by
  rw [putAt, child, map?, Entries.find?_insert]
  split <;> rfl

/-
  A map with the same maps within, put in place of another
  one, shows at its path and nowhere else.
-/
theorem leaf_putAt
    (map new : CrdtMap)
    (path : List String)
    (hMaps :
      ∀ name, new.map? name = (map.reach path).map? name)
    (other : List String)
    (name : String) :
    (map.putAt new path).leaf other name =
      if other = path then new.leaf [] name
      else map.leaf other name := by
  induction path generalizing map other with
  | nil =>
      cases other with
      | nil => rfl
      | cons first rest =>
          have hChild : new.child first = map.child first :=
            congrArg (·.getD .empty) (hMaps first)
          rw [if_neg (List.cons_ne_nil _ _), putAt, leaf_cons,
            leaf_cons, hChild]
  | cons first rest ih =>
      cases other with
      | nil =>
          rw [if_neg (List.cons_ne_nil _ _).symm]
          rfl
      | cons head tail =>
          rw [leaf_cons, leaf_cons, child_putAt_cons]
          rw [reach_cons] at hMaps
          by_cases hHead : first = head
          · subst hHead
            rw [if_pos rfl, ih _ hMaps]
            simp only [List.cons.injEq, true_and]
          · rw [if_neg hHead, if_neg]
            intro hEq
            exact hHead (List.cons.inj hEq).1.symm

end CrdtMap

------------------------------------------------------------
-- Updates at Paths
------------------------------------------------------------

namespace Update

variable {inner : Update} {path : List String}

/- The update that makes another one at a path. -/
def within
    (inner : Update) : List String → Update
  | [] => inner
  | name :: rest => empty.setChild name (inner.within rest)

/- What is written first at a path is all that is written. -/
theorem modifyAt_empty
    {ε : Type}
    (change : Update → Except ε Update)
    (path : List String) :
    empty.modifyAt change path =
      (change empty).map (·.within path) := by
  induction path with
  | nil =>
      rw [modifyAt]
      cases change empty <;> rfl
  | cons name rest ih =>
      have hChild : empty.child name = empty := rfl
      rw [modifyAt, hChild, ih]
      cases change empty <;> rfl

/- An update at a path is well-formed if the inner one is. -/
theorem WellFormed.within
    (hWell : inner.WellFormed)
    (path : List String) :
    (inner.within path).WellFormed := by
  induction path with
  | nil => exact hWell
  | cons name rest ih => exact wellFormed_empty.setChild ih name

/- Members are removed at a path if the inner one does. -/
theorem removesMembers_within
    (inner : Update)
    (path : List String) :
    (inner.within path).removesMembers =
      inner.removesMembers := by
  induction path with
  | nil => rfl
  | cons name rest ih =>
      have hRemoves :
          (inner.within (name :: rest)).removesMembers =
            ((inner.within rest).removesMembers || false) := by
        rfl
      rw [hRemoves, Bool.or_false, ih]

/- A path leads on within what is written at its start. -/
theorem at?_within_append
    (inner : Update)
    (path rest : List String) :
    (inner.within path).at? (path ++ rest) =
      inner.at? rest := by
  induction path with
  | nil => rfl
  | cons name others ih =>
      have hMap :
          (inner.within (name :: others)).map? name =
            some (inner.within others) := by
        exact if_pos rfl
      rw [List.cons_append, at?, hMap]
      exact ih

/- An update at a path is made to the map of the path. -/
theorem apply_within
    (inner : Update)
    (path : List String)
    (map : CrdtMap) :
    (inner.within path).apply map =
      (inner.apply (map.reach path)).map
        (map.putAt · path) := by
  induction path generalizing map with
  | nil =>
      change inner.apply map = _
      cases hApply : inner.apply map <;>
        simp [CrdtMap.reach, CrdtMap.at?, hApply,
          Except.map, CrdtMap.putAt]
  | cons name rest ih =>
      have hApply :
          (inner.within (name :: rest)).apply map =
            ((inner.within rest).apply
              (map.child name)).map fun after =>
                { map with
                  maps :=
                    Entries.insert map.maps name after } := by
        rw [within, setChild, empty, apply]
        simp only [Entries.insert, applyAll]
        change _ = ((inner.within rest).apply
          ((Entries.find? map.maps name).getD .empty)).map _
        cases (inner.within rest).apply
          ((Entries.find? map.maps name).getD .empty) <;> rfl
      rw [hApply, ih, CrdtMap.reach_cons]
      cases inner.apply ((map.child name).reach rest) <;> rfl

/-
  An update that writes to no map within changes the entries
  at its path as it says, and no others.
-/
theorem leaf_of_apply_within
    (hWell : inner.WellFormed)
    (hMaps : ∀ name, inner.map? name = none)
    {map after : CrdtMap}
    (hApply : (inner.within path).apply map = .ok after) :
    (∀ name,
      (inner.entry name).Makes (map.leaf path name)
        (after.leaf path name)) ∧
    (∀ other name,
      other ≠ path →
      after.leaf other name = map.leaf other name) := by
  rw [apply_within] at hApply
  cases hInner : inner.apply (map.reach path) with
  | error reason =>
      rw [hInner] at hApply
      cases hApply
  | ok new =>
      rw [hInner] at hApply
      cases hApply
      have hMakes := makes_of_apply hWell hInner
      have hKept :
          ∀ name,
            new.map? name = (map.reach path).map? name := by
        intro name
        have hMap := (hMakes name).map
        rw [show (inner.entry name).map = none
          from hMaps name] at hMap
        exact hMap
      constructor
      · intro name
        rw [CrdtMap.leaf_putAt map new path hKept, if_pos rfl]
        refine
          ⟨(hMakes name).register, (hMakes name).counter,
            (hMakes name).set, (hMakes name).flag, ?_⟩
        rw [show (inner.entry name).map = none
          from hMaps name]
        rfl
      · intro other name hOther
        rw [CrdtMap.leaf_putAt map new path hKept,
          if_neg hOther]

end Update

namespace Schema

variable {schema : Schema} {document : schema.Document}
variable {root : Path} {encoded : Encoded}

/- A document at a path is written as one on its own. -/
theorem encodeDocument_eq
    (schema : Schema)
    (document : schema.Document)
    (root : Path) :
    schema.encodeDocument document root =
      (schema.encode document .empty).map fun update =>
        ⟨update.within root.segments,
          schema.causalContext document⟩ := by
  rw [encodeDocument, Update.modifyAt_empty]
  cases schema.encode document .empty <;> rfl

/- What is written of a document stands at its path. -/
theorem eq_within_of_encodeDocument
    (hEncode :
      schema.encodeDocument document root = .ok encoded) :
    ∃ inner,
      schema.encode document .empty = .ok inner ∧
      encoded.update = inner.within root.segments := by
  rw [encodeDocument_eq] at hEncode
  cases hInner : schema.encode document .empty with
  | error failure =>
      rw [hInner] at hEncode
      cases hEncode
  | ok inner =>
      rw [hInner] at hEncode
      cases hEncode
      exact ⟨inner, rfl, rfl⟩

end Schema

end CrdtDoc
