import CrdtDoc.Handle.Binding

/-
  This file defines handles of flags.  A handle holds the
  state that is sent whenever the handle is.

  Key definitions include:
    * `Flag`
    * `Flag.load`
-/

namespace CrdtDoc

/- A handle of a flag. -/
structure Flag where
  binding : Binding
  state : Bool
deriving DecidableEq, Repr, Inhabited

namespace Flag

/- The handle of a flag that has not been read. -/
def bound
    (binding : Binding) : Flag :=
  ⟨binding, false⟩

/- The handle of a flag as it stands in a map. -/
def load
    (binding : Binding)
    (map : CrdtMap) : Flag :=
  ⟨binding, (map.flag? binding.name).getD false⟩

/- Take another state. -/
def set
    (flag : Flag)
    (state : Bool) : Flag :=
  { flag with state }

/- Send the state. -/
def writes
    (flag : Flag)
    (name : String) : List Write :=
  [.flag name flag.state]

end Flag

end CrdtDoc
