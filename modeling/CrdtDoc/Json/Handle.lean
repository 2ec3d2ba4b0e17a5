import CrdtDoc.Error
import CrdtDoc.Handle
import CrdtDoc.Json.Reader

/-
  This file defines the JSON form of handles, which holds
  their value alone, and of their kinds.

  Key definitions include:
    * `Json.ofKind`
    * `Json.Reader.kind`
    * `HandleKind.toJson`
    * `HandleKind.ofJson`
    * `Slot.toJson`
-/

namespace CrdtDoc

namespace Json

------------------------------------------------------------
-- Kinds
------------------------------------------------------------

/- The value of a kind: its name. -/
def ofKind
    (kind : HandleKind) : Json :=
  ofText kind.name

/- A kind: its name, or the object that has it as a key. -/
def Reader.kind : Reader HandleKind
  | _, .text pieces => (text? pieces).bind
      HandleKind.ofName?
  | _ + 1, .object [(key, .null)] => (text? key).bind
      HandleKind.ofName?
  | _, _ => none

------------------------------------------------------------
-- Handles
------------------------------------------------------------

/- The value of a handle. -/
def ofHandle : (kind : HandleKind) → kind.Handle → Json
  | .counter, handle => ofInteger (Counter.value handle)
  | .set, handle =>
      .list ((SetHandle.items handle).map ofBytes)
  | .flag, handle => .bool (Flag.state handle)
  | .register, handle => ofBytes (Register.value handle)

namespace Reader

/- The handle of no entry, with a given value. -/
def handle : (kind : HandleKind) → Reader kind.Handle
  | .counter => fun depth json =>
      (integer .i64 depth json).map fun value =>
        { Counter.bound default with value }
  | .set => fun depth json =>
      (list bytesOrText depth json).map fun items =>
        { SetHandle.bound default with items }
  | .flag => fun depth json =>
      (bool depth json).map fun state =>
        { Flag.bound default with state }
  | .register => fun depth json =>
      (bytesOrText depth json).map fun value =>
        { Register.bound default with value }

end Reader

end Json

/- The JSON text of a handle. -/
def HandleKind.toJson
    (kind : HandleKind)
    (handle : kind.Handle) : String :=
  (Json.ofHandle kind handle).render

/- The handle of no entry that a JSON text spells. -/
def HandleKind.ofJson
    (kind : HandleKind)
    (text : String) : Except Error kind.Handle :=
  match (Json.Reader.handle kind).read? text with
  | some handle => .ok handle
  | none => .error (.json .malformed)

/- The JSON text of a slot. -/
def Slot.toJson
    {kind : HandleKind}
    (slot : Slot kind) : String :=
  (Json.ofOption (Json.ofHandle kind) slot).render

end CrdtDoc
