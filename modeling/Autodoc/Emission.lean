import Autodoc.EnumDoc
import Autodoc.Header
import Autodoc.Signature
import Autodoc.Walk

namespace Autodoc

structure EmittedFile where
  fileName : String
  contents : String
  deriving DecidableEq

structure PropertyDoc where
  name : String
  host : String
  blurb : String
  enum : Option String
  deriving DecidableEq

namespace Registry

def propertyDoc (c : Config) (p : Property) : Logged GenerateError PropertyDoc := do
  let host ← c.hostTypeIn "image property" p.name p.type .argument
  let enum ←
    if p.type.isEnum then do
      let name ← .ofExcept (c.enumRefName "image property" p.name p.type)
      pure (some name)
    else pure none
  pure ⟨variableName p.name, host, p.blurb, enum⟩

def propertyDocs (r : Registry) (c : Config) : Logged GenerateError (List PropertyDoc) := do
  let properties ← .ofExcept (r.properties.mapError .registry)
  Logged.each (propertyDoc c) properties

end Registry

def PropertyDoc.render (p : PropertyDoc) : String :=
  " * @property " ++ p.host ++ " $" ++ p.name ++ " " ++ p.blurb ++ "\n"
    ++ match p.enum with
      | none => ""
      | some enum => " *     @see " ++ enum ++ " for possible values\n"

def Config.classFile (c : Config) (title doc name body : String) : String :=
  c.header.preamble c.hostNamespace
    ++ "\nnamespace " ++ c.hostNamespace ++ ";\n\n/**\n"
    ++ " * " ++ title ++ "\n" ++ c.header.classTags c.hostNamespace
    ++ doc ++ " */\n"
    ++ "abstract class " ++ name ++ "\n\x7b\n" ++ body ++ "\x7d\n"

namespace Registry

def documented (r : Registry) (c : Config) (nickname : String) : Logged GenerateError String := do
  .note .debug "documenting operation" [("nickname", nickname)]
  r.methodDoc c nickname

def autodoc (r : Registry) (c : Config) : Logged GenerateError EmittedFile := do
  let nicknames ← r.nicknames c
  let methods ← Logged.each (r.documented c) nicknames.toList
  let properties ← r.propertyDocs c
  let doc :=
    " *\n" ++ String.join methods ++ " *\n" ++ String.join (properties.map PropertyDoc.render)
  pure
    ⟨c.autodocClass ++ ".php", c.classFile "Autodocs for the Image class." doc c.autodocClass ""⟩

end Registry

def escapeLiteral (cs : List Char) : List Char :=
  cs.flatMap fun c => if c = '\\' ∨ c = '\'' then ['\\', c] else [c]

def EnumConstant.render (k : EnumConstant) : String :=
  "    const " ++ k.name ++ " = '" ++ String.ofList (escapeLiteral k.value.toList) ++ "';\n"

def EnumDoc.render (d : EnumDoc) (c : Config) : String :=
  c.classFile ("The " ++ d.hostName ++ " enum.") "" d.hostName
    (String.join (d.constants.map EnumConstant.render))

namespace Registry

def enumFile (r : Registry) (c : Config) (type : String) : Except GenerateError EmittedFile :=
  match r.enumDoc c type with
  | .error e => .error e
  | .ok d => .ok ⟨d.hostName ++ ".php", d.render c⟩

/-- Forces types by name; a name that is not known is noted and passed over. -/
def forceAll (r : Registry) : List String → List Event × Registry
  | [] => ([], r)
  | name :: names =>
    match r.force name with
    | .ok r => r.forceAll names
    | .error e =>
      let (events, r) := r.forceAll names
      (⟨.warn, "cannot force enum registration", [("name", name), ("error", e.message)]⟩ :: events, r)

end Registry

def enumNames (c : Config) : Action Registry GenerateError (List String) := fun r =>
  let (events, r) := r.forceAll c.lazyEnumTypes
  let names := r.enumTypeNames c
  ⟨events ++ names.events, r, names.outcome⟩

/-- Takes a file, or refuses it. -/
abbrev Sink (σ : Type) := EmittedFile → Action σ GenerateError Unit

/-- The registry and what the sink keeps. -/
structure Emission (σ : Type) where
  registry : Registry
  kept : σ

namespace Emission

def onRegistry (x : Action Registry ε α) : Action (Emission σ) ε α := fun s =>
  let r := x s.registry
  ⟨r.events, { s with registry := r.state }, r.outcome⟩

def onKept (x : Action σ ε α) : Action (Emission σ) ε α := fun s =>
  let r := x s.kept
  ⟨r.events, { s with kept := r.state }, r.outcome⟩

/-- Renders enum files and hands each over before the next is rendered. -/
def emitEnums (c : Config) (sink : Sink σ) : List String → Action (Emission σ) GenerateError Unit
  | [] => pure ()
  | name :: names => do
    let file ← onRegistry (.ask fun r => .ofExcept (r.enumFile c name))
    onKept (sink file)
    emitEnums c sink names

/-- Hands over the autodoc file, then the enum files in the order of their types' names; returns how many. -/
def emitAll (c : Config) (sink : Sink σ) : Action (Emission σ) GenerateError Nat := do
  let file ← onRegistry (.ask fun r => r.autodoc c)
  onKept (sink file)
  let names ← onRegistry (enumNames c)
  emitEnums c sink names
  pure (1 + names.length)

end Emission

end Autodoc
