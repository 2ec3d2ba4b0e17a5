import CrdtDoc.Handle.Binding
import CrdtDoc.Run

/-
  This file defines handles of counters.  A handle shows the
  value as last seen plus what was added since, and keeps
  the amount that has not been sent.

  Key definitions include:
    * `Counter`
    * `Counter.increase`
    * `Counter.load`
    * `Counter.received`
-/

namespace CrdtDoc

/- A handle of a counter. -/
structure Counter where
  binding : Binding
  value : Integer .i64
  pending : Integer .i64
deriving DecidableEq, Repr, Inhabited

namespace Counter

/- The handle of a counter that has not been read. -/
def bound
    (binding : Binding) : Counter :=
  ⟨binding, .zero, .zero⟩

/- The handle of a counter as it stands in a map. -/
def load
    (binding : Binding)
    (map : CrdtMap) : Counter :=
  ⟨binding, (map.counter? binding.name).getD .zero, .zero⟩

/- Add to the value, and then to the amount to be sent. -/
def increase
    (amount : Integer .i64) : Run Counter Unit := do
  let value ← Run.add (← get).value amount
  modify fun counter => { counter with value }
  let pending ← Run.add (← get).pending amount
  modify fun counter => { counter with pending }

/- Send the amount that has not been sent. -/
def writes
    (counter : Counter)
    (name : String) : List Write :=
  [.increment name counter.pending]

/- The writes that make a counter. -/
def placeholder
    (name : String) : List Write :=
  [.increment name .zero]

/- The handle after its amount was sent. -/
def received
    (counter : Counter)
    (document? : Option CrdtMap) : Counter :=
  let stored? :=
    ((document?.bind counter.binding.mapIn?).bind
      (·.counter? counter.binding.name))
  { counter with
    value := stored?.getD counter.value
    pending := .zero }

end Counter

end CrdtDoc
