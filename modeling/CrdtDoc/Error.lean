import CrdtDoc.CodecError
import CrdtDoc.Handle.Binding

/-
  This file defines all errors that a caller can meet.

  Key definitions include:
    * `TransportError`
    * `ClientError`
    * `JsonError`
    * `Error`
    * `Error.message`
    * `Error.part`
-/

namespace CrdtDoc

------------------------------------------------------------
-- Causes
------------------------------------------------------------

/- Why a command has no answer, or one of no use. -/
inductive TransportError where
  | connection (reason : String)
  | protocol (reason : String)
  | unexpectedResponse (expected actual : String)
  | other (reason : String)
deriving DecidableEq, Repr

/- The error as shown. -/
def TransportError.message : TransportError → String
  | .connection reason => "Connection failed: " ++ reason
  | .protocol reason => "Protocol error: " ++ reason
  | .unexpectedResponse expected actual =>
      "Unexpected response: expected " ++ expected ++
        ", got " ++ actual
  | .other reason => "Transport error: " ++ reason

/- Why a document was not fetched, stored or deleted. -/
inductive ClientError where
  | notFound (location : Location)
  | missingKey (operation : String)
deriving DecidableEq, Repr

/- The error as shown. -/
def ClientError.message : ClientError → String
  | .notFound location => "Not found: " ++ location.text
  | .missingKey operation =>
      "A key is required for " ++ operation

/- Why JSON text could not be read or written. -/
inductive JsonError where
  | malformed
  | poisoned
deriving DecidableEq, Repr

/- The error as shown. -/
def JsonError.message : JsonError → String
  | .malformed => "Serialization error"
  | .poisoned =>
      "Serialization error: object store lock poisoned"

------------------------------------------------------------
-- Errors
------------------------------------------------------------

/- An error. -/
inductive Error where
  | codec (error : CodecError)
  | handle (error : HandleError)
  | transport (error : TransportError)
  | client (error : ClientError)
  | config
  | json (error : JsonError)
deriving DecidableEq, Repr

namespace Error

/- The error as shown. -/
def message : Error → String
  | .codec error => error.message
  | .handle error => error.message
  | .transport error => error.message
  | .client error => error.message
  | .config => "Invalid session configuration"
  | .json error => error.message

/- The part of the library that an error comes from. -/
def part : Error → String
  | .codec _ => "codec"
  | .handle _ => "handle"
  | .transport _ => "transport"
  | .client _ => "command"
  | .config => "config"
  | .json _ => "serialize"

end Error

end CrdtDoc
