import CrdtDoc.Decode
import CrdtDoc.Encode
import CrdtDoc.Filter
import CrdtDoc.Middleware
import CrdtDoc.Session

/-
  This file defines buckets, and what can be done with the
  documents in them: they are fetched, stored and deleted,
  and maps are changed without a document.

  A bucket's middleware stands around each command.  What is
  checked before is only that there is a key, where one is
  needed.

  Key definitions include:
    * `Bucket`
    * `Bucket.get`
    * `Bucket.set`
    * `Bucket.setValue`
    * `Bucket.mapOperation`
    * `Bucket.delete`
-/

namespace CrdtDoc

/- A bucket of a type, with its middleware. -/
structure Bucket (σ : Type) where
  name : String
  type : String
  middleware : List (Middleware σ)

namespace Bucket

variable {σ : Type}

/- The place of a document. -/
def location
    (bucket : Bucket σ)
    (key : String) : Location :=
  ⟨bucket.name, bucket.type, key⟩

/- A command within the middleware of a bucket. -/
def run
    {m : Type → Type}
    [Monad m]
    (bucket : Bucket σ)
    (lift : {α : Type} → Run σ α → m α)
    (kind : RequestKind)
    (key : String)
    (command : m (Except Error Outcome)) :
    m (Except Error Outcome) :=
  Middleware.chain lift ⟨kind, bucket.location key⟩ command
    bucket.middleware

------------------------------------------------------------
-- Fetching
------------------------------------------------------------

/- Fetch a document and read it over an older one. -/
def fetchDocument
    (session : Session σ)
    (schema : Schema)
    (location : Location)
    (options : ReadOptions) :
    Run (σ × schema.Document) (Except Error Outcome) := do
  match ← Run.onFirst (session.fetch ⟨location, options⟩) with
  | .error error => return .error error
  | .ok response =>
      if response.notFound then
        return .error (.client (.notFound location))
      else
        let (result, document) :=
          schema.decodeDocument response.map response.context
            (.root location) (← get).2
        modify fun (state, _) => (state, document)
        match result with
        | .error error => return .error (.codec error)
        | .ok () => return .ok ⟨location.key, response.context⟩

/- Fetch the document of a key. -/
def get
    (bucket : Bucket σ)
    (session : Session σ)
    (schema : Schema)
    (key : String)
    (options : ReadOptions) :
    Run (σ × schema.Document) (Except Error Outcome) :=
  if key.isEmpty then
    return .error (.client (.missingKey "get"))
  else
    bucket.run Run.onFirst .get key
      (fetchDocument session schema (bucket.location key) options)

------------------------------------------------------------
-- Storing
------------------------------------------------------------

/- Change a map; the key is that given, or a new one. -/
def changeMap
    (session : Session σ)
    (command : Change) : Run σ (Except Error Outcome) := do
  match ← session.change command with
  | .error error => return .error error
  | .ok response =>
      let key :=
        response.generatedKey.getD command.location.key
      return .ok ⟨key, response.context⟩

/- The command that stores what was written. -/
def storeCommand
    (location : Location)
    (filter : Filter)
    (options : WriteOptions)
    (encoded : Encoded) : Change where
  location
  update := filter.apply encoded.update
  context :=
    if encoded.context.isEmpty then none
    else some encoded.context
  returnBody := false
  options

/- Store what was written, unless it could not be. -/
def storeEncoded
    (session : Session σ)
    (location : Location)
    (filter : Filter)
    (options : WriteOptions)
    (result : Except EncodeFailure Encoded) :
    Run σ (Except Error Outcome) :=
  match result with
  | .ok encoded =>
      changeMap session
        (storeCommand location filter options encoded)
  | .error (.codec error) => return .error (.codec error)
  | .error (.abort reason) => throw reason

/- Write a document, fill its empty slots, and store it. -/
def storeDocument
    (session : Session σ)
    (schema : Schema)
    (location : Location)
    (filter : Filter)
    (options : WriteOptions) :
    Run (σ × schema.Document) (Except Error Outcome) := do
  let (result, document) :=
    schema.encodeDocumentBinding (← MonadState.get).2
      (.root location)
  modify fun (state, _) => (state, document)
  Run.onFirst
    (storeEncoded session location filter options result)

/- Store a document under a key, or under a new one. -/
def set
    (bucket : Bucket σ)
    (session : Session σ)
    (schema : Schema)
    (key : String)
    (filter : Filter)
    (options : WriteOptions) :
    Run (σ × schema.Document) (Except Error Outcome) :=
  bucket.run Run.onFirst .set key
    (storeDocument session schema (bucket.location key) filter
      options)

/- Store a document that stays as it is. -/
def setValue
    (bucket : Bucket σ)
    (session : Session σ)
    (schema : Schema)
    (document : schema.Document)
    (key : String)
    (filter : Filter)
    (options : WriteOptions) :
    Run σ (Except Error Outcome) :=
  let location := bucket.location key
  bucket.run id .set key
    (storeEncoded session location filter options
      (schema.encodeDocument document (.root location)))

/- Make an update under a key, or under a new one. -/
def mapOperation
    (bucket : Bucket σ)
    (session : Session σ)
    (update : Update)
    (key : String)
    (context : Option Bytes)
    (options : WriteOptions) :
    Run σ (Except Error Outcome) :=
  bucket.run id .mapOperation key
    (changeMap session
      { location := bucket.location key
        update
        context
        returnBody := false
        options })

------------------------------------------------------------
-- Deleting
------------------------------------------------------------

/- Remove the map of a location. -/
def removeMap
    (session : Session σ)
    (command : Delete) : Run σ (Except Error Outcome) := do
  match ← session.delete command with
  | .error error => return .error error
  | .ok () => return .ok ⟨command.location.key, []⟩

/- Delete the document of a key. -/
def delete
    (bucket : Bucket σ)
    (session : Session σ)
    (key : String)
    (options : WriteOptions) :
    Run σ (Except Error Outcome) :=
  if key.isEmpty then
    return .error (.client (.missingKey "delete"))
  else
    bucket.run id .delete key
      (removeMap session ⟨bucket.location key, options⟩)

end Bucket

end CrdtDoc
