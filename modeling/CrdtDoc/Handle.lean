import CrdtDoc.Handle.Counter
import CrdtDoc.Handle.SetHandle
import CrdtDoc.Handle.Flag
import CrdtDoc.Handle.Register

/-
  This file defines handles of any kind, and the slots of a
  document that may hold one.

  Key definitions include:
    * `HandleKind.Handle`
    * `HandleKind.bound`
    * `HandleKind.load`
    * `HandleKind.writes`
    * `HandleKind.placeholder`
    * `Slot`
    * `Slot.handle`
-/

namespace CrdtDoc

------------------------------------------------------------
-- Handles
------------------------------------------------------------

namespace HandleKind

/- The handles of a kind. -/
@[reducible]
def Handle : HandleKind → Type
  | .counter => Counter
  | .set => SetHandle
  | .flag => Flag
  | .register => Register

/- The handle of an entry that has not been read. -/
def bound : (kind : HandleKind) → Binding → kind.Handle
  | .counter, binding => Counter.bound binding
  | .set, binding => SetHandle.bound binding
  | .flag, binding => Flag.bound binding
  | .register, binding => Register.bound binding

/- The handle of an entry as it stands in a map. -/
def load :
    (kind : HandleKind) → Binding → CrdtMap → kind.Handle
  | .counter, binding, map => Counter.load binding map
  | .set, binding, map => SetHandle.load binding map
  | .flag, binding, map => Flag.load binding map
  | .register, binding, map => Register.load binding map

/- The entry that a handle stands for. -/
def binding : (kind : HandleKind) → kind.Handle → Binding
  | .counter, handle => Counter.binding handle
  | .set, handle => SetHandle.binding handle
  | .flag, handle => Flag.binding handle
  | .register, handle => Register.binding handle

/- The writes under a name that send what is unsent. -/
def writes :
    (kind : HandleKind) → kind.Handle → String → List Write
  | .counter, handle, name => Counter.writes handle name
  | .set, handle, name => SetHandle.writes handle name
  | .flag, handle, name => Flag.writes handle name
  | .register, handle, name => Register.writes handle name

/- The writes under a name that make the entry. -/
def placeholder : HandleKind → String → List Write
  | .counter, name => Counter.placeholder name
  | .set, name => SetHandle.placeholder name
  | .flag, _ => []
  | .register, _ => []

end HandleKind

------------------------------------------------------------
-- Slots
------------------------------------------------------------

/- A place for a handle in a document. -/
@[reducible]
def Slot (kind : HandleKind) : Type :=
  Option kind.Handle

namespace Slot

variable {kind : HandleKind}

/- The handle of a slot, which must not be empty. -/
def handle : Slot kind → Except HandleError kind.Handle
  | some handle => .ok handle
  | none => .error (.nil kind)

/-
  The writes under a name that store a slot: those of its
  handle, or those that make the entry.
-/
def writes
    (slot : Slot kind)
    (name : String) : List Write :=
  match slot with
  | some handle => kind.writes handle name
  | none => kind.placeholder name

end Slot

end CrdtDoc
