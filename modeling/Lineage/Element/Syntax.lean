import Lineage.Catalog.Generics
import Lineage.Text.Blank
import Lineage.Text.Cut

namespace Lineage

inductive ElementError where
  | unknownType (name : String)
  | unterminated (text : String)
  | missingName (text : String)
  | noMember (type name : String)
  | noOverload (type name : String) (params : List String)
  | unreadableParams (text : String) (cause : QueryError)
  | unnamedParam (cause : QueryError)
deriving DecidableEq, Repr

def ElementError.messages : ElementError → List String
  | .unknownType name => ["unknown type '" ++ name ++ "'"]
  | .unterminated text => ["unterminated parameter list in '" ++ text ++ "'"]
  | .missingName text => ["missing member name in '" ++ text ++ "'"]
  | .noMember type name => ["type '" ++ type ++ "' has no member '" ++ name ++ "'"]
  | .noOverload type name params =>
    ["type '" ++ type ++ "' has no member '" ++ name ++ "' taking (" ++
      ", ".intercalate params ++ ")"]
  | .unreadableParams text cause =>
    ["failed to read parameters of '" ++ text ++ "'", cause.message]
  | .unnamedParam cause => [cause.message]

namespace Element

def parseType (c : Catalog) (name : List Char) : Except ElementError TypeId :=
  let name := String.ofList (Text.trim name)
  match c.lookup name with
  | some id => .ok id
  | none => .error (.unknownType name)

def parseParams (list : List Char) : List (List Char) :=
  ((Text.pieces ',' list).map Text.trim).filter (!·.isEmpty)

def splitMember (text : String) (part : List Char) :
    Except ElementError (List Char × Option (List String)) :=
  match Text.cut '(' part with
  | none => .ok (Text.trim part, none)
  | some (name, rest) =>
    match Text.dropEnding? [')'] rest with
    | none => .error (.unterminated text)
    | some list => .ok (Text.trim name, some ((parseParams list).map String.ofList))

def paramNames (c : Catalog) (text : String) (id : MemberId) :
    Except ElementError (List String) := do
  let types ← (c.parameterTypes id).mapError (.unreadableParams text)
  types.mapM fun type => (c.typeName type).mapError .unnamedParam

def findOverload (c : Catalog) (text : String) (params : List String) :
    List MemberId → Except ElementError (Option MemberId)
  | [] => pure none
  | id :: rest => do
    let names ← paramNames c text id
    if names = params then pure (some id) else findOverload c text params rest

def parse (c : Catalog) (text : List Char) : Except ElementError Element := do
  let text := Text.trim text
  match Text.cut '#' text with
  | none => .type <$> parseType c text
  | some (typePart, memberPart) =>
    let whole := String.ofList text
    let typeText := String.ofList typePart
    let on ← parseType c typePart
    let (name, params) ← splitMember whole memberPart
    if name.isEmpty then throw (.missingName whole)
    let name := String.ofList name
    let named := c.membersNamed on name
    match params with
    | none =>
      match named with
      | id :: _ => pure (.member id)
      | [] => throw (.noMember typeText name)
    | some params =>
      match ← findOverload c whole params named with
      | some id => pure (.member id)
      | none => throw (.noOverload typeText name params)

def ofText (c : Catalog) (text : String) : Except ElementError Element := parse c text.toList

end Element

end Lineage
