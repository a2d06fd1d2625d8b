import Autodoc.GenerateError
import Autodoc.HostType
import Autodoc.Roles
import Autodoc.Text.Casing

namespace Autodoc

inductive ReturnType where
  | void
  | single (host : String)
  | aggregate
  deriving DecidableEq

structure Param where
  name : String
  host : String
  deriving DecidableEq

/-- Points from a parameter to the enum that lists its values. -/
structure EnumRef where
  enum : String
  param : String
  deriving DecidableEq

structure OutputDoc where
  name : String
  host : String
  blurb : String
  deriving DecidableEq

structure Signature where
  isStatic : Bool
  returns : ReturnType
  name : String
  params : List Param
  summary : String
  enumRefs : List EnumRef
  outputs : List OutputDoc
  deriving DecidableEq

/-- Variable names have no dashes. -/
def variableName (name : String) : String := Text.underscored name

/-- The host type of a part of something that messages call `context`. -/
def Config.hostTypeIn (c : Config) (context field : String) (d : TypeDescriptor) (u : TypeUse) :
    Logged GenerateError String :=
  (c.hostType d u).mapError fun e => .unmappedType context field e.shown

def Config.enumRefName (c : Config) (context field : String) (d : TypeDescriptor) :
    Except GenerateError String :=
  match d.name with
  | none => .error (.anonymousEnum context field)
  | some name => .ok (c.stripPrefix name)

namespace Signature

def returnType (c : Config) (nickname : String) : ReturnShape → Logged GenerateError ReturnType
  | .void => pure .void
  | .single a => do
    let host ← c.hostTypeIn nickname a.name a.type .result
    pure (.single host)
  | .aggregate => pure .aggregate

def param (c : Config) (nickname : String) (a : Argument) : Logged GenerateError Param := do
  let host ← c.hostTypeIn nickname a.name a.type .argument
  pure ⟨variableName a.name, host⟩

def enumRef (c : Config) (nickname : String) (a : Argument) : Logged GenerateError EnumRef := do
  let enum ← .ofExcept (c.enumRefName nickname a.name a.type)
  pure ⟨enum, variableName a.name⟩

def outputDoc (c : Config) (nickname : String) (a : Argument) : Logged GenerateError OutputDoc := do
  let host ← c.hostTypeIn nickname a.name a.type .argument
  pure ⟨variableName a.name, host, Text.capitalize a.blurb⟩

def ofOperation (c : Config) (op : Operation) : Logged GenerateError Signature := do
  let roles := Roles.ofArguments op.arguments
  let returns ← returnType c op.nickname roles.returnShape
  let params ← Logged.each (param c op.nickname) roles.inputs
  let enumRefs ← Logged.each (enumRef c op.nickname) roles.enumArguments
  let outputs ←
    if roles.returnShape = .aggregate then Logged.each (outputDoc c op.nickname) roles.outputs
    else pure []
  pure
    { isStatic := roles.isStatic
      returns
      name := op.nickname
      params
      summary := Text.capitalize op.description
      enumRefs
      outputs }

def returnText : ReturnType → String
  | .void => "void "
  | .single host => host ++ " "
  | .aggregate => "array "

def paramText (p : Param) : String := p.host ++ " $" ++ p.name ++ ", "

def enumRefText (e : EnumRef) : String :=
  " *     @see " ++ e.enum ++ " for possible values for $" ++ e.param ++ "\n"

def outputText (o : OutputDoc) : String :=
  " *         '" ++ o.name ++ "' => @type " ++ o.host ++ " " ++ o.blurb ++ "\n"

def outputsText (os : List OutputDoc) : String :=
  if os.isEmpty then ""
  else " *     Return array with: [\n" ++ String.join (os.map outputText) ++ " *     ];\n"

def render (s : Signature) : String :=
  " * @method " ++ (if s.isStatic then "static " else "") ++ returnText s.returns ++ s.name ++ "("
    ++ String.join (s.params.map paramText) ++ "array $options = []) " ++ s.summary ++ ".\n"
    ++ String.join (s.enumRefs.map enumRefText) ++ outputsText s.outputs
    ++ " *     @throws Exception\n"

end Signature

namespace Registry

def operationOf (r : Registry) (nickname : String) : Except GenerateError Operation :=
  (r.operation nickname).mapError (.operation nickname)

def signature (r : Registry) (c : Config) (nickname : String) : Logged GenerateError Signature := do
  let op ← .ofExcept (r.operationOf nickname)
  Signature.ofOperation c op

def methodDoc (r : Registry) (c : Config) (nickname : String) : Logged GenerateError String := do
  let s ← r.signature c nickname
  pure s.render

end Registry

end Autodoc
