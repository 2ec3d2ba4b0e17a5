import CrdtDoc.Abort
import CrdtDoc.Text
import CrdtDoc.Timestamp

/-
  This file defines why a document cannot be written to a
  map, or read from one.

  Key definitions include:
    * `CodecError`
    * `CodecError.message`
    * `EncodeFailure`
-/

namespace CrdtDoc

/-
  Why a field cannot be written or read.  Each error names
  its field.  The first six are about types that have no
  stored form, the other four about stored data.
-/
inductive CodecError where
  | arrayElement (field kind : String)
  | nestedElement (field kind : String)
  | unexpectedKind (field kind : String)
  | unknownKind (field kind : String)
  | mapKey (field key kind : String)
  | mapValue (field kind : String)
  | invalidInteger (field : String) (bytes : Bytes)
  | invalidText (field : String)
  | invalidTimestamp
      (field : String)
      (reason : Timestamp.Malformed)
  | arrayLength (field : String) (expected actual : Nat)
deriving DecidableEq, Repr

namespace CodecError

/- The field that an error names. -/
def field : CodecError → String
  | .arrayElement field _ => field
  | .nestedElement field _ => field
  | .unexpectedKind field _ => field
  | .unknownKind field _ => field
  | .mapKey field _ _ => field
  | .mapValue field _ => field
  | .invalidInteger field _ => field
  | .invalidText field => field
  | .invalidTimestamp field _ => field
  | .arrayLength field _ _ => field

/- Is the error about stored data, and not about a type? -/
def isInvalidData : CodecError → Bool
  | .invalidInteger .. => true
  | .invalidText .. => true
  | .invalidTimestamp .. => true
  | .arrayLength .. => true
  | _ => false

/- The error as shown. -/
def message : CodecError → String
  | .arrayElement field kind =>
      "Unknown array element kind for field '" ++ field ++
        "': " ++ kind
  | .nestedElement field kind =>
      "Unknown nested slice kind for field '" ++ field ++
        "': " ++ kind
  | .unexpectedKind field kind =>
      "Unexpected kind for field '" ++ field ++ "': " ++ kind
  | .unknownKind field kind =>
      "Unknown kind for field '" ++ field ++ "': " ++ kind
  | .mapKey field key kind =>
      "Unknown map key kind for field '" ++ field ++
        "': cannot read '" ++ key ++ "' as " ++ kind
  | .mapValue field kind =>
      "Unknown map value kind for field '" ++ field ++ "': " ++
        kind
  | .invalidInteger field bytes =>
      "Invalid integer in field '" ++ field ++ "': '" ++
        Text.lossy bytes ++ "'"
  | .invalidText field =>
      "Invalid UTF-8 text in field '" ++ field ++ "'"
  | .invalidTimestamp field reason =>
      "Invalid timestamp in field '" ++ field ++ "': " ++
        reason.message
  | .arrayLength field expected actual =>
      "Field '" ++ field ++ "' expects " ++
        toString expected ++ " bytes, found " ++
        toString actual

end CodecError

/- Why a document was not written: an error, or a stop. -/
inductive EncodeFailure where
  | codec (error : CodecError)
  | abort (reason : Abort)
deriving DecidableEq, Repr

namespace EncodeFailure

/- A write whose only failure is a stop. -/
def ofAbort
    {α : Type}
    (result : Except Abort α) : Except EncodeFailure α :=
  result.mapError .abort

/- A conversion whose only failure is an error. -/
def ofCodec
    {α : Type}
    (result : Except CodecError α) :
    Except EncodeFailure α :=
  result.mapError .codec

end EncodeFailure

end CrdtDoc
