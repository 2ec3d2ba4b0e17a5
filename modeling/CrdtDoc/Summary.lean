import CrdtDoc.Bucket
import CrdtDoc.Text.Quoted

/-
  This file defines the one-line summaries of sessions and
  buckets.  They show options and names, and not the parts
  that are functions.

  Key definitions include:
    * `Session.summary`
    * `Bucket.summary`
-/

namespace CrdtDoc

/- A record as shown: its name, and its parts in order. -/
def summaryOf
    (name : String)
    (parts : List String) : String :=
  name ++ " \x7b " ++ String.intercalate ", " parts ++ " \x7d"

/- A part of a record as shown. -/
def partOf
    (name : String)
    (shown : String) : String :=
  name ++ ": " ++ shown

/- An option as shown. -/
def quorumSummary : Option Quorum → String
  | some quorum => "Some(" ++ Integer.text quorum ++ ")"
  | none => "None"

/- The options of a fetch as shown. -/
def ReadOptions.summary
    (options : ReadOptions) : String :=
  summaryOf "ReadOptions"
    [partOf "pr" (quorumSummary options.pr),
      partOf "r" (quorumSummary options.r)]

/- The options of a write as shown. -/
def WriteOptions.summary
    (options : WriteOptions) : String :=
  summaryOf "WriteOptions"
    [partOf "pw" (quorumSummary options.pw),
      partOf "dw" (quorumSummary options.dw),
      partOf "w" (quorumSummary options.w)]

/- A configuration as shown. -/
def Config.summary
    (config : Config) : String :=
  summaryOf "SessionConfig"
    [partOf "read" config.read.summary,
      partOf "write" config.write.summary]

/- A session as shown.  Its transport is left out. -/
def Session.summary
    {σ : Type}
    (session : Session σ) : String :=
  summaryOf "Session"
    [partOf "config" session.config.summary, ".."]

/- A bucket as shown.  Its middleware is only counted. -/
def Bucket.summary
    {σ : Type}
    (bucket : Bucket σ) : String :=
  summaryOf "Bucket"
    [partOf "bucket" (Text.quoted bucket.name),
      partOf "bucket_type" (Text.quoted bucket.type),
      partOf "middleware" (toString bucket.middleware.length)]

end CrdtDoc
