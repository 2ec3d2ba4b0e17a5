import CrdtDoc.Error
import CrdtDoc.Json.Reader
import CrdtDoc.Options

/-
  This file defines the JSON form of options, any of which
  may be left out, and of configurations.

  Key definitions include:
    * `Json.ofReadOptions`
    * `Json.Reader.readOptions`
    * `Json.ofWriteOptions`
    * `Json.Reader.writeOptions`
    * `Config.toJson`
    * `Config.ofJson`
-/

namespace CrdtDoc

namespace Json

/- The value of an option. -/
def ofQuorum
    (quorum : Option Quorum) : Json :=
  ofOption ofInteger quorum

/- The value of the options of a fetch. -/
def ofReadOptions
    (options : ReadOptions) : Json :=
  ofFields
    [("pr", ofQuorum options.pr), ("r", ofQuorum options.r)]

/- The value of the options of a write. -/
def ofWriteOptions
    (options : WriteOptions) : Json :=
  ofFields
    [("pw", ofQuorum options.pw), ("dw", ofQuorum options.dw),
      ("w", ofQuorum options.w)]

/- The value of a configuration. -/
def ofConfig
    (config : Config) : Json :=
  ofFields
    [("read", ofReadOptions config.read),
      ("write", ofWriteOptions config.write)]

namespace Reader

/- An option, which may be left out. -/
def quorum
    (depth : Nat)
    (parts : Parts)
    (name : String) : Option (Option Quorum) :=
  orElse (optional (integer .u32)) none depth parts name

/- The options of a fetch. -/
def readOptions : Reader ReadOptions :=
  record ["pr", "r"] fun depth parts => do
    let pr ← quorum depth parts "pr"
    let r ← quorum depth parts "r"
    return ⟨pr, r⟩

/- The options of a write. -/
def writeOptions : Reader WriteOptions :=
  record ["pw", "dw", "w"] fun depth parts => do
    let pw ← quorum depth parts "pw"
    let dw ← quorum depth parts "dw"
    let w ← quorum depth parts "w"
    return ⟨pw, dw, w⟩

/- A configuration. -/
def config : Reader Config :=
  record ["read", "write"] fun depth parts => do
    let read ← orElse readOptions .unset depth parts "read"
    let write ← orElse writeOptions .unset depth parts "write"
    return ⟨read, write⟩

end Reader

end Json

namespace Config

/- The JSON text of a configuration. -/
def toJson
    (config : Config) : String :=
  (Json.ofConfig config).render

/- The configuration that a JSON text spells. -/
def ofJson
    (text : String) : Except Error Config :=
  match Json.Reader.config.read? text with
  | some config => .ok config
  | none => .error .config

end Config

end CrdtDoc
