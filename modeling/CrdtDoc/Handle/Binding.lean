import CrdtDoc.Path
import CrdtDoc.CrdtMap
import CrdtDoc.Update

/-
  This file defines the kinds of handles and the bindings
  that tie a handle to one entry of a stored document.

  Key definitions include:
    * `HandleKind`
    * `HandleError`
    * `Binding`
    * `Binding.validate`
    * `Binding.update`
    * `Binding.mapIn?`
-/

namespace CrdtDoc

------------------------------------------------------------
-- Kinds
------------------------------------------------------------

/- What a handle stands for. -/
inductive HandleKind where
  | counter
  | set
  | flag
  | register
deriving DecidableEq, Repr

/- The name of a kind. -/
def HandleKind.name : HandleKind → String
  | .counter => "Counter"
  | .set => "Set"
  | .flag => "Flag"
  | .register => "Register"

/- The kind of a name. -/
def HandleKind.ofName?
    (name : String) : Option HandleKind :=
  [HandleKind.counter, .set, .flag, .register].find?
    (·.name == name)

------------------------------------------------------------
-- Errors
------------------------------------------------------------

/- Why a handle cannot be used. -/
inductive HandleError where
  | nil (kind : HandleKind)
  | unbound (kind : HandleKind)
  | invalidKey (kind : HandleKind) (location : Location)
deriving DecidableEq, Repr

namespace HandleError

/- The kind of the handle. -/
def kind : HandleError → HandleKind
  | .nil kind => kind
  | .unbound kind => kind
  | .invalidKey kind _ => kind

/- The error as shown. -/
def message : HandleError → String
  | .nil kind => "Nil " ++ kind.name
  | .unbound kind =>
      "Unknown path to " ++ kind.name ++ ". Retrieve the " ++
        kind.name ++ " with get or set before updating it"
  | .invalidKey kind location =>
      "Invalid key in " ++ kind.name ++ " exec: '" ++
        location.text ++ "'"

end HandleError

------------------------------------------------------------
-- Bindings
------------------------------------------------------------

/-
  The entry of a stored document that a handle stands for,
  and the causal context it was read with.
-/
structure Binding where
  path : Path
  name : String
  context : Bytes
deriving DecidableEq, Repr, Inhabited

namespace Binding

/- The entry of a name in a map, without any context. -/
def ofName
    (path : Path)
    (name : String) : Binding :=
  ⟨path, name, []⟩

/- An entry has a name. -/
def isBound
    (binding : Binding) : Bool :=
  !binding.name.isEmpty

/- Does the binding lead to an entry of the store? -/
def validate
    (binding : Binding)
    (kind : HandleKind) : Except HandleError Unit :=
  if ¬ binding.isBound then .error (.unbound kind)
  else if ¬ binding.path.location.IsComplete then
    .error (.invalidKey kind binding.path.location)
  else .ok ()

/- The update of the document that makes given writes. -/
def update
    (binding : Binding)
    (writes : List Write) : Except Abort Update :=
  Update.empty.modifyAt
    (fun update => writes.foldlM Update.write update)
    binding.path.segments

/- The causal context, if there is one. -/
def context?
    (binding : Binding) : Option Bytes :=
  if binding.context.isEmpty then none
  else some binding.context

/- The map of the entry within its document. -/
def mapIn?
    (binding : Binding)
    (document : CrdtMap) : Option CrdtMap :=
  document.at? binding.path.segments

end Binding

end CrdtDoc
