import CrdtDoc.Integer

/-
  This file defines how many replicas have to answer to a
  command, where that is not left to the store.

  Key definitions include:
    * `ReadOptions`
    * `WriteOptions`
    * `Config`
-/

namespace CrdtDoc

/- A number of replicas. -/
abbrev Quorum :=
  Integer .u32

/- How many replicas have to answer to a fetch. -/
structure ReadOptions where
  pr : Option Quorum
  r : Option Quorum
deriving DecidableEq, Repr, Inhabited

namespace ReadOptions

/- The options that leave everything to the store. -/
def unset : ReadOptions :=
  ⟨none, none⟩

/- The options, with others where they are unset. -/
def or
    (options others : ReadOptions) : ReadOptions where
  pr := options.pr.or others.pr
  r := options.r.or others.r

end ReadOptions

/- How many replicas have to answer to a write. -/
structure WriteOptions where
  pw : Option Quorum
  dw : Option Quorum
  w : Option Quorum
deriving DecidableEq, Repr, Inhabited

namespace WriteOptions

/- The options that leave everything to the store. -/
def unset : WriteOptions :=
  ⟨none, none, none⟩

/- The options, with others where they are unset. -/
def or
    (options others : WriteOptions) : WriteOptions where
  pw := options.pw.or others.pw
  dw := options.dw.or others.dw
  w := options.w.or others.w

end WriteOptions

/- The options of commands that leave them unset. -/
structure Config where
  read : ReadOptions
  write : WriteOptions
deriving DecidableEq, Repr, Inhabited

/- The configuration that leaves all to the store. -/
def Config.unset : Config :=
  ⟨.unset, .unset⟩

end CrdtDoc
