import CrdtDoc.Update

/-
  This file defines filters, which let through some fields
  of an update.  A filter lists paths to include and paths
  to exclude, and the longest listed start of a field's path
  decides.  Where a path is listed both ways, it is
  included; where none is listed, a field is let through
  unless the filter includes anything.

  Key definitions include:
    * `Filter`
    * `Filter.depth?`
    * `Filter.allows`
    * `Filter.apply`
-/

namespace CrdtDoc

/- A filter of fields. -/
structure Filter where
  included : List (List String)
  excluded : List (List String)
deriving DecidableEq, Repr, Inhabited

namespace Filter

------------------------------------------------------------
-- Decisions
------------------------------------------------------------

/- The filter that lets everything through. -/
def all : Filter :=
  ⟨[], []⟩

/- Include a path and all that is below it. -/
def including
    (filter : Filter)
    (path : List String) : Filter :=
  { filter with included := filter.included ++ [path] }

/- Exclude a path and all that is below it. -/
def excluding
    (filter : Filter)
    (path : List String) : Filter :=
  { filter with excluded := filter.excluded ++ [path] }

/- Does the filter list no path? -/
def isEmpty
    (filter : Filter) : Bool :=
  filter.included.isEmpty && filter.excluded.isEmpty

/- The length of the longest listed start of a path. -/
def depth?
    (listed : List (List String))
    (path : List String) : Option Nat :=
  ((listed.filter (·.isPrefixOf path)).map List.length).max?

/- What the longest listed starts of a path decide. -/
def decision
    (filter : Filter)
    (path : List String) : Bool :=
  match depth? filter.included path,
      depth? filter.excluded path with
  | some included, some excluded => excluded ≤ included
  | some _, none => true
  | none, some _ => false
  | none, none => filter.included.isEmpty

/- Does the filter let the field of a path through? -/
def allows
    (filter : Filter)
    (path : List String) : Bool :=
  if filter.isEmpty then true else filter.decision path

/- A filter that lists no path decides the same. -/
theorem allows_eq_decision
    (filter : Filter)
    (path : List String) :
    filter.allows path = filter.decision path := by
  rcases filter with ⟨included, excluded⟩
  unfold allows
  split
  · rename_i hEmpty
    rw [isEmpty, Bool.and_eq_true, List.isEmpty_iff,
      List.isEmpty_iff] at hEmpty
    rcases hEmpty with ⟨rfl, rfl⟩
    rfl
  · rfl

------------------------------------------------------------
-- Updates
------------------------------------------------------------

/- The fields of a section that are let through. -/
def keep
    {α : Type}
    (filter : Filter)
    (path : List String)
    (entries : Entries α) : Entries α :=
  entries.filter fun entry => filter.allows (path ++ [entry.1])

mutual
/- What is let through of an update below a path. -/
def applyAt
    (filter : Filter)
    (path : List String) : Update → Update
  | ⟨registers, counters, adds, removes, flags, maps⟩ =>
      { registers := filter.keep path registers
        counters := filter.keep path counters
        adds := filter.keep path adds
        removes := filter.keep path removes
        flags := filter.keep path flags
        maps := filter.applyAll path maps }

/- What is let through of the maps of a section. -/
def applyAll
    (filter : Filter)
    (path : List String) :
    List (String × Update) → List (String × Update)
  | [] => []
  | (name, update) :: rest =>
      (name, filter.applyAt (path ++ [name]) update) ::
        filter.applyAll path rest
end

/-
  What is let through of an update.  All its maps remain,
  if only to be made.
-/
def apply
    (filter : Filter)
    (update : Update) : Update :=
  filter.applyAt [] update

end Filter

end CrdtDoc
