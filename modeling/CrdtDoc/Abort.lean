/-
  This file defines why a computation stops for good, past
  any error that its caller could meet: an addition left
  its range, or one name was written as two kinds at once.

  Key definitions include:
    * `Abort`
    * `Abort.message`
-/

namespace CrdtDoc

/- Why a computation stopped for good. -/
inductive Abort where
  | overflow
  | nameOfSet (name : String)
  | nameOfRegister (name : String)
deriving DecidableEq, Repr

/- The reason as shown. -/
def Abort.message : Abort → String
  | .overflow => "attempt to add with overflow"
  | .nameOfSet name =>
      "'" ++ name ++ "' is already a Set in this Map"
  | .nameOfRegister name =>
      "'" ++ name ++ "' is already a Register in this Map"

end CrdtDoc
