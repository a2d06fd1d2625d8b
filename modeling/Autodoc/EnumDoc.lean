import Autodoc.Config
import Autodoc.GenerateError
import Autodoc.Text.Casing

namespace Autodoc

structure EnumConstant where
  name : String
  value : String
  deriving DecidableEq

structure EnumDoc where
  hostName : String
  constants : List EnumConstant
  deriving DecidableEq

def constantName (value : String) (reserved : Table String) : String :=
  let name := Text.upper (Text.underscored value)
  (reserved.get? name).getD name

def isLetter (c : Char) : Bool := ('A' ≤ c && c ≤ 'Z') || ('a' ≤ c && c ≤ 'z') || c = '_'

def isWordChar (c : Char) : Bool := isLetter c || ('0' ≤ c && c ≤ '9')

def isIdentifierText : List Char → Bool
  | [] => false
  | c :: cs => isLetter c && cs.all isWordChar

def isIdentifier (s : String) : Bool := isIdentifierText s.toList

namespace EnumDoc

/-- Constants of values in order; `seen` are the names before. -/
def constantsFrom (enum : String) (reserved : Table String) :
    List String → List String → Except GenerateError (List EnumConstant)
  | _, [] => .ok []
  | seen, value :: values =>
    let name := constantName value reserved
    if !isIdentifier name || seen.contains name then .error (.invalidConstant enum value name)
    else
      match constantsFrom enum reserved (name :: seen) values with
      | .error e => .error e
      | .ok cs => .ok (⟨name, value⟩ :: cs)

end EnumDoc

def Registry.enumDoc (r : Registry) (c : Config) (type : String) : Except GenerateError EnumDoc :=
  if r.sees type then
    match r.enumValues type with
    | .error e => .error (.registry e)
    | .ok values =>
      match EnumDoc.constantsFrom type c.reservedNames [] values with
      | .error e => .error e
      | .ok constants => .ok ⟨c.stripPrefix type, constants⟩
  else .error (.registry (.unknownType type))

end Autodoc
