import Autodoc.Argument
import Autodoc.SnapshotCheck

namespace Autodoc

inductive RegistryError where
  | unknownType (name : String)
  | unknownOperation (nickname : String)
  | abstract (nickname : String)
  | notAnEnum (name : String)
  deriving DecidableEq

def RegistryError.message : RegistryError → String
  | unknownType name => "unknown type `" ++ name ++ "`"
  | unknownOperation nickname => "unknown operation `" ++ nickname ++ "`"
  | abstract nickname => "`" ++ nickname ++ "` is abstract and cannot be instantiated"
  | notAnEnum name => "`" ++ name ++ "` is not an enum type"

structure Operation where
  nickname : String
  description : String
  deprecated : Bool
  arguments : List Argument

structure Property where
  name : String
  type : TypeDescriptor
  blurb : String

structure Registry where
  snapshot : Snapshot
  sound : snapshot.defect? = none
  hidden : List String

namespace Registry

def ofSnapshot (s : Snapshot) : Except SnapshotError Registry :=
  match h : s.defect? with
  | some e => .error e
  | none => .ok ⟨s, h, s.lazyTypes⟩

def ofDocuments (ss : List Snapshot) : Except SnapshotError Registry := ofSnapshot (.mergeAll ss)

def isHidden (r : Registry) (name : String) : Bool := r.hidden.contains name

def sees (r : Registry) (name : String) : Bool := r.snapshot.isKnown name && !r.isHidden name

def indexOf (r : Registry) (name : String) : Nat := r.snapshot.typeNames.idxOf name

def isAbstract (r : Registry) (name : String) : Bool :=
  (r.snapshot.record? name).any (·.isAbstract)

def isAnonymous (r : Registry) (name : String) : Bool :=
  (r.snapshot.record? name).any (·.isAnonymous)

def nickname? (r : Registry) (name : String) : Option String :=
  (r.snapshot.record? name).bind (·.nickname)

def describe (r : Registry) (name : String) : TypeDescriptor :=
  ⟨r.snapshot.kindOf name, if r.isAnonymous name then none else some name⟩

/-- The visible types right below a type, as recorded. -/
def children (r : Registry) (name : String) : List String :=
  ((r.snapshot.types.filter (·.parent = some name)).map (·.name)).filter fun c => !r.isHidden c

/-- The type that answers to a nickname: of several that carry it, the first. -/
def carrier? (r : Registry) (nickname : String) : Option String :=
  r.snapshot.typeNames.find? fun name => r.nickname? name = some nickname

/-- What is known of the type that a record names, hidden or not. -/
def descriptor (r : Registry) (name : String) : Except RegistryError TypeDescriptor :=
  if r.snapshot.isKnown name then .ok (r.describe name) else .error (.unknownType name)

def argument (r : Registry) (a : ArgumentRecord) : Except RegistryError Argument :=
  (r.descriptor a.type).map fun type => ⟨a.name, .ofBits a.flags, type, a.blurb⟩

def operation (r : Registry) (nickname : String) : Except RegistryError Operation :=
  if (r.carrier? nickname).any r.isAbstract then .error (.abstract nickname)
  else
    match r.snapshot.operations.get? nickname with
    | none => .error (.unknownOperation nickname)
    | some op =>
      (op.arguments.mapM r.argument).map fun arguments =>
        ⟨nickname, op.description, op.deprecated, arguments⟩

def enumValues (r : Registry) (name : String) : Except RegistryError (List String) :=
  if r.snapshot.kindOf name = .enum then .ok ((r.snapshot.enums.get? name).getD [])
  else .error (.notAnEnum name)

def property (r : Registry) (p : PropertyRecord) : Except RegistryError Property :=
  (r.descriptor p.type).map fun type => ⟨p.name, type, p.blurb⟩

def properties (r : Registry) : Except RegistryError (List Property) :=
  r.snapshot.properties.mapM r.property

def force (r : Registry) (name : String) : Except RegistryError Registry :=
  if r.snapshot.isKnown name then .ok { r with hidden := r.hidden.filter (· ≠ name) }
  else .error (.unknownType name)

end Registry

end Autodoc
