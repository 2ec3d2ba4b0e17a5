import CrdtDoc.Handle
import CrdtDoc.Session

/-
  This file defines how a handle is sent: its writes go to
  the store as one update of its entry, and the handle then
  takes over what the store answered.  A handle that is not
  bound to an entry is not sent, and one whose update fails
  stays as it was.

  Key definitions include:
    * `HandleKind.command`
    * `HandleKind.received`
    * `HandleKind.send`
    * `Slot.send`
-/

namespace CrdtDoc

namespace HandleKind

/-
  Is the map asked for in the answer?  Counters and sets
  show what the store holds, the others what they sent.
-/
def wantsBody : HandleKind → Bool
  | .counter => true
  | .set => true
  | .flag => false
  | .register => false

/- The causal context of an update.  Counters need none. -/
def contextFor :
    HandleKind → Binding → Option Bytes
  | .counter, _ => none
  | _, binding => binding.context?

/- The command that sends what is unsent. -/
def command
    (kind : HandleKind)
    (handle : kind.Handle) : Except Abort Change := do
  let binding := kind.binding handle
  let update ←
    binding.update (kind.writes handle binding.name)
  return {
    location := binding.path.location
    update
    context := kind.contextFor binding
    returnBody := kind.wantsBody
    options := .unset }

/- The handle after its command was answered. -/
def received :
    (kind : HandleKind) → kind.Handle → Changed → kind.Handle
  | .counter, handle, response =>
      Counter.received handle response.map
  | .set, handle, response =>
      SetHandle.received handle response.map response.context
  | .flag, handle, _ => handle
  | .register, handle, _ => handle

/- Send a handle. -/
def send
    {σ : Type}
    (kind : HandleKind)
    (session : Session σ) :
    Run (σ × kind.Handle) (Except Error Unit) := do
  let handle := (← get).2
  match (kind.binding handle).validate kind with
  | .error error => return .error (.handle error)
  | .ok () =>
      let command ← ExceptT.mk (pure (kind.command handle))
      match ← Run.onFirst (session.change command) with
      | .error error => return .error error
      | .ok response =>
          modify fun (state, _) =>
            (state, kind.received handle response)
          return .ok ()

end HandleKind

/- Send the handle of a slot. -/
def Slot.send
    {σ : Type}
    (kind : HandleKind)
    (session : Session σ) :
    Run (σ × Slot kind) (Except Error Unit) :=
  ExceptT.mk fun (state, slot) =>
    match Slot.handle slot with
    | .error error => (.ok (.error (.handle error)), (state, slot))
    | .ok handle =>
        let (result, (state, handle)) :=
          (kind.send session).run (state, handle)
        (result, (state, some handle))

end CrdtDoc
