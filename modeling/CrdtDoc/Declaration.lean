import CrdtDoc.Declaration.Token
import CrdtDoc.Schema

/-
  This file defines declarations of documents: the names of
  their fields, and the options of each field, which stand
  in attributes before it.

  A field is stored under its own name unless it is renamed.
  It may be skipped, or hold the causal context instead of
  being stored, but not both, and a context field cannot be
  renamed.

  Key definitions include:
    * `FieldDeclaration`
    * `FieldDeclaration.key`
    * `FieldDeclaration.addTo`
    * `Declaration`
    * `Declaration.Refusal`
    * `Declaration.read`
-/

namespace CrdtDoc

------------------------------------------------------------
-- Declarations
------------------------------------------------------------

/- A field as declared. -/
structure FieldDeclaration where
  field : String
  rename : Option String
  skip : Bool
  context : Bool
deriving DecidableEq, Repr

namespace FieldDeclaration

/- The name that a field is stored under. -/
def key
    (declared : FieldDeclaration) : String :=
  declared.rename.getD declared.field

/- Put a field of a type before the others of a schema. -/
def addTo
    (declared : FieldDeclaration)
    (type : FieldType)
    (rest : Schema) : Schema :=
  if declared.skip then .skipped declared.field type rest
  else if declared.context then .context declared.field rest
  else .stored declared.field declared.key type rest

end FieldDeclaration

/- A document as declared. -/
structure Declaration where
  name : String
  fields : List FieldDeclaration
deriving DecidableEq, Repr

namespace Declaration

/-
  Why a declaration is refused: it cannot be read, it is that
  of a union, which no document is, or the options of a field
  do not go together.
-/
inductive Refusal where
  | malformed
  | union
  | skippedContext
  | renamedContext
deriving DecidableEq, Repr

/- The reason as shown. -/
def Refusal.message : Refusal → String
  | .malformed => "Malformed declaration"
  | .union => "internal error: entered unreachable code"
  | .skippedContext =>
      "#[riak(context)] and #[riak(skip)] cannot be used " ++
        "together."
  | .renamedContext =>
      "#[riak(context)] fields are not stored in the Map, so " ++
        "#[riak(rename)] has no effect."

------------------------------------------------------------
-- Names
------------------------------------------------------------

/- The words that are no names unless they are raw. -/
def keywords : List String :=
  ["_", "abstract", "as", "async", "await", "become", "box",
    "break", "const", "continue", "crate", "do", "dyn", "else",
    "enum", "extern", "false", "final", "fn", "for", "if",
    "impl", "in", "let", "loop", "macro", "match", "mod",
    "move", "mut", "override", "priv", "pub", "ref", "return",
    "Self", "self", "static", "struct", "super", "trait",
    "true", "try", "type", "typeof", "unsafe", "unsized", "use",
    "virtual", "where", "while", "yield"]

/- Is a word a name? -/
def isName
    (word : String) : Bool :=
  !keywords.contains word

/- Is a word the name of a field, which may be blank? -/
def isFieldName
    (word : String) : Bool :=
  isName word || word == "_"

------------------------------------------------------------
-- Lists of Tokens
------------------------------------------------------------

/- The parts of a list between its commas. -/
def splitAll : List Token → List (List Token)
  | [] => [[]]
  | .mark ',' _ :: rest => [] :: splitAll rest
  | token :: rest =>
      match splitAll rest with
      | part :: parts => (token :: part) :: parts
      | [] => [[token]]

/-
  The parts of a list between its commas, apart from those
  within angles.  The `>` of an arrow closes none.
-/
def splitTypes : Nat → List Token → List (List Token)
  | _, [] => [[]]
  | 0, .mark ',' _ :: rest => [] :: splitTypes 0 rest
  | depth, .mark '-' true :: .mark '>' joined :: rest =>
      match splitTypes depth rest with
      | part :: parts =>
          (.mark '-' true :: .mark '>' joined :: part) :: parts
      | [] => []
  | depth, token :: rest =>
      let inner :=
        match token with
        | .mark '<' _ => depth + 1
        | .mark '>' _ => depth - 1
        | _ => depth
      match splitTypes inner rest with
      | part :: parts => (token :: part) :: parts
      | [] => []

/- The parts, of which an empty last one does not count. -/
def dropEmptyLast
    (parts : List (List Token)) : List (List Token) :=
  match parts.getLast? with
  | some [] => parts.dropLast
  | _ => parts

/- What follows angles, of which `depth` more are open. -/
def afterAngles : Nat → List Token → Option (List Token)
  | _, [] => none
  | depth, .mark '-' true :: .mark '>' _ :: rest =>
      afterAngles depth rest
  | depth, .mark '<' _ :: rest => afterAngles (depth + 1) rest
  | 0, .mark '>' _ :: rest => some rest
  | depth + 1, .mark '>' _ :: rest => afterAngles depth rest
  | depth, _ :: rest => afterAngles depth rest

/-
  Does a word before the mark `!` call a macro?  Within the
  type of a pointer it does not.
-/
def callsMacro
    (word : String) : Bool :=
  word ≠ "mut" && word ≠ "const"

/- The tokens without what macros are called with in `{}`. -/
def dropMacroBodies : List Token → List Token
  | .word word :: .mark '!' joined :: .group .curly body ::
      rest =>
      let call := [.word word, .mark '!' joined]
      let kept :=
        if callsMacro word then call
        else call ++ [.group .curly body]
      kept ++ dropMacroBodies rest
  | token :: rest => token :: dropMacroBodies rest
  | [] => []

/- What follows the conditions on a declaration's types. -/
def afterWhere : Nat → List Token → List Token
  | _, [] => []
  | depth, .mark '-' true :: .mark '>' _ :: rest =>
      afterWhere depth rest
  | depth, .mark '<' _ :: rest => afterWhere (depth + 1) rest
  | depth, .mark '>' _ :: rest => afterWhere (depth - 1) rest
  | 0, .group .curly tokens :: rest =>
      .group .curly tokens :: rest
  | depth, _ :: rest => afterWhere depth rest

/- The attributes that stand first, and what follows them. -/
def attributes :
    List Token → List (List Token) × List Token
  | .mark '#' _ :: .group .square tokens :: rest =>
      let (found, rest) := attributes rest
      (tokens :: found, rest)
  | tokens => ([], tokens)

/- What follows the visibility, if any is given. -/
def afterVisibility : List Token → List Token
  | .word "pub" :: .group .round _ :: rest => rest
  | .word "pub" :: rest => rest
  | tokens => tokens

------------------------------------------------------------
-- Options
------------------------------------------------------------

/- The options that were given to a field. -/
structure FieldOptions where
  rename : Option String
  skip : Option Bool
  context : Option Bool

/- No options. -/
def FieldOptions.none : FieldOptions :=
  ⟨.none, .none, .none⟩

/- The state that a token sets an option to. -/
def stateOf? : Token → Option Bool
  | .word "true" => some true
  | .word "false" => some false
  | .text "true" => some true
  | .text "false" => some false
  | _ => none

/- A path from the root is the same as one from here. -/
def afterRoot : List Token → List Token
  | .mark ':' true :: .mark ':' _ :: path => path
  | path => path

/- Give one option, which must not be given yet. -/
def FieldOptions.add
    (options : FieldOptions)
    (item : List Token) : Option FieldOptions :=
  let setSkip (state : Bool) : Option FieldOptions :=
    if options.skip.isNone then
      some { options with skip := some state }
    else .none
  let setContext (state : Bool) : Option FieldOptions :=
    if options.context.isNone then
      some { options with context := some state }
    else .none
  match afterRoot item with
  | [.word "skip"] => setSkip true
  | [.word "skip", .mark '=' _, value] =>
      (stateOf? value).bind setSkip
  | [.word "context"] => setContext true
  | [.word "context", .mark '=' _, value] =>
      (stateOf? value).bind setContext
  | [.word "rename", .mark '=' _, .text name] =>
      if options.rename.isNone then
        some { options with rename := some name }
      else .none
  | _ => .none

/- The options in an attribute.  Some attributes have none. -/
def items? : List Token → Option (List (List Token))
  | [.word "riak"] => some []
  | [.word "riak", .group _ tokens] =>
      some (dropEmptyLast (splitAll tokens))
  | .word "riak" :: .mark ':' true :: _ => some []
  | .word "riak" :: _ => none
  | _ => some []

/- The options in the attributes of a field. -/
def options?
    (attributes : List (List Token)) : Option FieldOptions := do
  let items ← attributes.mapM items?
  items.flatten.foldlM FieldOptions.add .none

------------------------------------------------------------
-- Reading
------------------------------------------------------------

/- The attributes and the name of a field, from its tokens. -/
def namedField?
    (tokens : List Token) :
    Option (List (List Token) × String) :=
  let (attributes, rest) := attributes tokens
  match afterVisibility rest with
  | .word name :: .mark ':' _ :: type =>
      if isFieldName name && !type.isEmpty then
        some (attributes, name)
      else none
  | _ => none

/- The field that tokens declare. -/
def field?
    (tokens : List Token) : Option FieldDeclaration := do
  let (attributes, name) ← namedField? tokens
  let options ← options? attributes
  return {
    field := name
    rename := options.rename
    skip := options.skip.getD false
    context := options.context.getD false }

/- What follows the types that a declaration is over. -/
def afterTypes : List Token → Option (List Token)
  | .mark '<' _ :: rest => afterAngles 0 rest
  | tokens => some tokens

/-
  The tokens of each field, from what follows the word that
  says what is declared, together with its name.
-/
def parts? : List Token → Option (String × List (List Token))
  | .word name :: rest => do
      let body :=
        match ← afterTypes rest with
        | .word "where" :: rest =>
            afterWhere 0 (dropMacroBodies rest)
        | rest => rest
      match body with
      | [.group .curly tokens] =>
          if isName name then
            return (name, dropEmptyLast (splitTypes 0 tokens))
          else none
      | _ => none
  | _ => none

/-
  Do tokens declare a union?  What their attributes say does
  not matter.
-/
def isUnion
    (tokens : List Token) : Bool :=
  match afterVisibility (attributes tokens).2 with
  | .word "union" :: rest =>
      (parts? rest).any fun (_, parts) =>
        parts.all fun part => (namedField? part).isSome
  | _ => false

/- The declaration that tokens make up. -/
def ofTokens?
    (tokens : List Token) : Option Declaration := do
  let (attributes, rest) := attributes tokens
  let items ← attributes.mapM items?
  if items.flatten.isEmpty then
    match afterVisibility rest with
    | .word "struct" :: rest =>
        let (name, parts) ← parts? rest
        return ⟨name, ← parts.mapM field?⟩
    | _ => none
  else none

/- Why the options of a field do not go together. -/
def refusal?
    (declared : FieldDeclaration) : Option Refusal :=
  if declared.context && declared.skip then
    some .skippedContext
  else if declared.context && declared.rename.isSome then
    some .renamedContext
  else none

/- The declaration that tokens make up, or what is wrong. -/
def ofTokens
    (tokens : List Token) : Except Refusal Declaration :=
  if isUnion tokens then .error .union
  else
    match ofTokens? tokens with
    | none => .error .malformed
    | some declaration =>
        match declaration.fields.findSome? refusal? with
        | some refusal => .error refusal
        | none => .ok declaration

/- The declaration that a text spells. -/
def read
    (text : String) : Except Refusal Declaration :=
  match Token.scan text with
  | none => .error .malformed
  | some tokens => ofTokens tokens

end Declaration

end CrdtDoc
