import CrdtDoc.Abort
import CrdtDoc.Integer

/-
  This file defines computations over a state that may stop
  for good.  What was done to the state before such a stop
  stays done.

  Key definitions include:
    * `Run`
    * `Run.add`
    * `Run.onFirst`
-/

namespace CrdtDoc

/- A computation over a state, which may stop for good. -/
abbrev Run (σ : Type) :=
  ExceptT Abort (StateM σ)

namespace Run

variable {σ τ α : Type}

/- A sum, or a stop if it is out of range. -/
def add
    {type : IntType}
    (a b : Integer type) : Run σ (Integer type) :=
  match a.add? b with
  | some sum => pure sum
  | none => throw .overflow

/- The computation over the first part of a state. -/
def onFirst
    (run : Run σ α) : Run (σ × τ) α :=
  ExceptT.mk fun (first, second) =>
    let (result, first) := run.run first
    (result, (first, second))

end Run

end CrdtDoc
