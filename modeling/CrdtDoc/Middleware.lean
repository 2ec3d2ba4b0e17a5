import CrdtDoc.Error
import CrdtDoc.Run

/-
  This file defines middleware: steps around the commands of
  a bucket.  A step either answers the request itself, or
  passes it on and then decides on the result.  Steps are
  entered in their order, and left in the reverse one.

  Key definitions include:
    * `Request`
    * `Outcome`
    * `Middleware`
    * `Middleware.chain`
-/

namespace CrdtDoc

/- What is asked of a bucket. -/
inductive RequestKind where
  | get
  | set
  | mapOperation
  | delete
deriving DecidableEq, Repr

/- What is asked of a bucket, and about which document. -/
structure Request where
  kind : RequestKind
  location : Location
deriving DecidableEq, Repr

/- The key and the causal context of a document. -/
structure Outcome where
  key : String
  context : Bytes
deriving DecidableEq, Repr, Inhabited

namespace Middleware

/-
  What a step does with a request: answer it, or pass it on
  and make something of the result.
-/
inductive Step (σ : Type) where
  | answer (result : Except Error Outcome)
  | pass
      (finish :
        Except Error Outcome → Run σ (Except Error Outcome))

end Middleware

/- A step around the commands of a bucket. -/
abbrev Middleware (σ : Type) : Type :=
  Request → Run σ (Middleware.Step σ)

namespace Middleware

/-
  The steps around a command, which is run where all of them
  pass its request on.  The command may have more state than
  the steps, which `lift` leaves to it.
-/
def chain
    {σ : Type}
    {m : Type → Type}
    [Monad m]
    (lift : {α : Type} → Run σ α → m α)
    (request : Request)
    (command : m (Except Error Outcome)) :
    List (Middleware σ) → m (Except Error Outcome)
  | [] => command
  | step :: rest => do
      match ← lift (step request) with
      | .answer result => return result
      | .pass finish =>
          let result ← chain lift request command rest
          lift (finish result)

end Middleware

end CrdtDoc
