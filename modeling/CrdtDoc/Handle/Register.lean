import CrdtDoc.Handle.Binding

/-
  This file defines handles of registers.  A handle holds
  the bytes that are sent whenever the handle is.

  Key definitions include:
    * `Register`
    * `Register.load`
    * `Register.text`
-/

namespace CrdtDoc

/- A handle of a register. -/
structure Register where
  binding : Binding
  value : Bytes
deriving DecidableEq, Repr, Inhabited

namespace Register

/- The handle of a register that has not been read. -/
def bound
    (binding : Binding) : Register :=
  ⟨binding, []⟩

/- The handle of a register as it stands in a map. -/
def load
    (binding : Binding)
    (map : CrdtMap) : Register :=
  ⟨binding, (map.register? binding.name).getD []⟩

/- Take other bytes. -/
def set
    (register : Register)
    (value : Bytes) : Register :=
  { register with value }

/- The bytes as shown. -/
def text
    (register : Register) : String :=
  Text.lossy register.value

/- Send the bytes. -/
def writes
    (register : Register)
    (name : String) : List Write :=
  [.register name register.value]

end Register

end CrdtDoc
