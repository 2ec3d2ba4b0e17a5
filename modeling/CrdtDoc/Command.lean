import CrdtDoc.CrdtMap
import CrdtDoc.Error
import CrdtDoc.Options
import CrdtDoc.Run
import CrdtDoc.Update

/-
  This file defines the commands that are sent to a store,
  and the responses to them.

  Key definitions include:
    * `Command`
    * `Response`
    * `Transport`
-/

namespace CrdtDoc

------------------------------------------------------------
-- Commands
------------------------------------------------------------

/- Ask for the map of a location. -/
structure Fetch where
  location : Location
  options : ReadOptions

/- Change the map of a location. -/
structure Change where
  location : Location
  update : Update
  context : Option Bytes
  returnBody : Bool
  options : WriteOptions

/- Remove the map of a location. -/
structure Delete where
  location : Location
  options : WriteOptions

/- What can be asked of a store. -/
inductive Command where
  | fetch (command : Fetch)
  | change (command : Change)
  | delete (command : Delete)

/- The location that a command is about. -/
def Command.location : Command → Location
  | .fetch command => command.location
  | .change command => command.location
  | .delete command => command.location

------------------------------------------------------------
-- Responses
------------------------------------------------------------

/- The map of a location, with its causal context. -/
structure Fetched where
  map : CrdtMap
  context : Bytes
  notFound : Bool

/- The causal context after a change. -/
structure Changed where
  generatedKey : Option String
  map : Option CrdtMap
  context : Bytes

/- What a store answers. -/
inductive Response where
  | fetched (response : Fetched)
  | changed (response : Changed)
  | deleted

/- The name of what a response answers. -/
def Response.name : Response → String
  | .fetched _ => "fetch_map"
  | .changed _ => "update_map"
  | .deleted => "delete"

------------------------------------------------------------
-- Transports
------------------------------------------------------------

/- A way to send commands, with a state of its own. -/
abbrev Transport (σ : Type) : Type :=
  Command → Run σ (Except TransportError Response)

end CrdtDoc
