import CrdtDoc.Command

/-
  This file defines sessions: a way to send commands, with
  the options of commands that leave them unset.

  Key definitions include:
    * `Session`
    * `Session.execute`
    * `Session.fetch`
    * `Session.change`
    * `Session.delete`
-/

namespace CrdtDoc

/- A way to send commands, with options. -/
structure Session (σ : Type) where
  transport : Transport σ
  config : Config

namespace Session

variable {σ : Type}

/- Send a command as it is. -/
def execute
    (session : Session σ)
    (command : Command) : Run σ (Except Error Response) := do
  return (← session.transport command).mapError .transport

/- The error of a response to another command. -/
def unexpected
    (expected : String)
    (response : Response) : Error :=
  .transport (.unexpectedResponse expected response.name)

/- Send a fetch. -/
def fetch
    (session : Session σ)
    (command : Fetch) : Run σ (Except Error Fetched) := do
  let options := command.options.or session.config.read
  match ← session.execute (.fetch { command with options }) with
  | .ok (.fetched response) => return .ok response
  | .ok other => return .error (unexpected "fetch_map" other)
  | .error error => return .error error

/- Send an update. -/
def change
    (session : Session σ)
    (command : Change) : Run σ (Except Error Changed) := do
  let options := command.options.or session.config.write
  match ← session.execute (.change { command with options }) with
  | .ok (.changed response) => return .ok response
  | .ok other => return .error (unexpected "update_map" other)
  | .error error => return .error error

/- Send a deletion. -/
def delete
    (session : Session σ)
    (command : Delete) : Run σ (Except Error Unit) := do
  let options := command.options.or session.config.write
  match ← session.execute (.delete { command with options }) with
  | .ok .deleted => return .ok ()
  | .ok other => return .error (unexpected "delete" other)
  | .error error => return .error error

end Session

end CrdtDoc
