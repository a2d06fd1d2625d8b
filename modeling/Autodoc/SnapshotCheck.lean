import Autodoc.Kind
import Autodoc.Snapshot

namespace Autodoc

inductive SnapshotError where
  | duplicateType (name : String)
  | unknownParent (name parent : String)
  | cycle (name : String)
  | unknownFieldType (owner field type : String)
  | unknownEnum (name : String)
  | unknownLazyType (name : String)
  deriving DecidableEq

def SnapshotError.message : SnapshotError → String
  | duplicateType name => "type `" ++ name ++ "` is declared twice"
  | unknownParent name parent => "type `" ++ name ++ "` has undeclared parent `" ++ parent ++ "`"
  | cycle name => "type `" ++ name ++ "` is its own ancestor"
  | unknownFieldType owner field type =>
    "`" ++ owner ++ "`: `" ++ field ++ "` has undeclared type `" ++ type ++ "`"
  | unknownEnum name => "enum values given for undeclared type `" ++ name ++ "`"
  | unknownLazyType name => "lazy type `" ++ name ++ "` is not declared"

namespace Snapshot

def record? (s : Snapshot) (name : String) : Option TypeRecord := s.types.find? (·.name = name)

def isKnown (s : Snapshot) (name : String) : Bool :=
  (Kind.ofRoot? name).isSome || (s.record? name).isSome

def parent? (s : Snapshot) (name : String) : Option String := (s.record? name).bind (·.parent)

def declared (s : Snapshot) : List String :=
  (s.types.map (·.name)).filter fun name => (Kind.ofRoot? name).isNone

/-- All types: the roots, then the others as recorded. -/
def typeNames (s : Snapshot) : List String := Kind.roots.map Prod.fst ++ s.declared

/-- Where the chain of parents above a type leads. -/
inductive Chain where
  | root (k : Kind)
  | loose
  | endless
  deriving DecidableEq

def climb (s : Snapshot) : Nat → String → Chain
  | 0, _ => .endless
  | fuel + 1, name =>
    match s.parent? name with
    | none => .loose
    | some parent =>
      match Kind.ofRoot? parent with
      | some k => .root k
      | none => s.climb fuel parent

/-- A chain that passes more types than there are goes in circles. -/
def chain (s : Snapshot) (name : String) : Chain := s.climb (s.typeNames.length + 1) name

/-- Roots keep their kind; every other type has the kind of the first root above it. -/
def kindOf (s : Snapshot) (name : String) : Kind :=
  match Kind.ofRoot? name with
  | some k => k
  | none =>
    match s.chain name with
    | .root k => k
    | _ => .unknown

def firstRepeat? : List String → List String → Option String
  | _, [] => none
  | seen, name :: names =>
    if seen.contains name then some name else firstRepeat? (name :: seen) names

def duplicate? (s : Snapshot) : Option SnapshotError :=
  (firstRepeat? [] (s.types.map (·.name))).map .duplicateType

def unknownParent? (s : Snapshot) : Option SnapshotError :=
  s.types.findSome? fun r =>
    match r.parent with
    | some parent => if s.isKnown parent then none else some (.unknownParent r.name parent)
    | none => none

def cycle? (s : Snapshot) : Option SnapshotError :=
  s.declared.findSome? fun name => if s.chain name = .endless then some (.cycle name) else none

def unknownArgumentType? (s : Snapshot) : Option SnapshotError :=
  s.operations.entries.findSome? fun (nickname, op) =>
    op.arguments.findSome? fun a =>
      if s.isKnown a.type then none else some (.unknownFieldType nickname a.name a.type)

def unknownPropertyType? (s : Snapshot) : Option SnapshotError :=
  s.properties.findSome? fun p =>
    if s.isKnown p.type then none else some (.unknownFieldType "VipsImage" p.name p.type)

def unknownEnum? (s : Snapshot) : Option SnapshotError :=
  (s.enums.keys.find? fun name => !s.isKnown name).map .unknownEnum

def unknownLazyType? (s : Snapshot) : Option SnapshotError :=
  (s.lazyTypes.find? fun name => !s.isKnown name).map .unknownLazyType

def defect? (s : Snapshot) : Option SnapshotError :=
  s.duplicate? <|> s.unknownParent? <|> s.cycle? <|> s.unknownArgumentType? <|>
    s.unknownPropertyType? <|> s.unknownEnum? <|> s.unknownLazyType?

end Snapshot

end Autodoc
