import Autodoc.Registry

namespace Autodoc

/-- A computation on a table, which may report an error. It has no outcome if it uses a place that is out of range. -/
abbrev Indexed (ε α : Type) := ExceptT ε Option α

namespace Indexed

def stop : Indexed ε α := ExceptT.mk none

def get (xs : List α) (i : Nat) : Indexed ε α :=
  match xs[i]? with
  | some x => pure x
  | none => stop

def modify (xs : List α) (i : Nat) (f : α → α) : Indexed ε (List α) :=
  if i < xs.length then pure (xs.modify i f) else stop

end Indexed

structure TypeNode where
  name : String
  parent : Option Nat
  nickname : Option String
  isAbstract : Bool
  isAnonymous : Bool
  kind : Kind
  children : List Nat
  deriving DecidableEq

def TypeNode.blank (name : String) (kind : Kind) : TypeNode := ⟨name, none, none, false, false, kind, []⟩

structure TypeTable where
  nodes : List TypeNode
  byName : Table Nat
  byNickname : Table Nat
  operations : Table OperationRecord
  enums : Table (List String)
  properties : List PropertyRecord
  hidden : List Nat

def rootCount : Nat := Kind.roots.length

/-- A table while types are declared: the links to parents are kept for later, as parents may be declared last. -/
structure TypeDraft where
  nodes : List TypeNode
  byName : Table Nat
  links : List (Nat × String)
  redeclared : List Nat

namespace TypeDraft

def push (d : TypeDraft) (name : String) (kind : Kind) : TypeDraft :=
  { d with nodes := d.nodes ++ [.blank name kind], byName := d.byName.insert name d.nodes.length }

def roots : TypeDraft := Kind.roots.foldl (fun d (name, kind) => d.push name kind) ⟨[], {}, [], []⟩

/-- The place of a type that is declared: a root has one, and may be declared once. -/
def place (d : TypeDraft) (name : String) : Indexed SnapshotError (Nat × TypeDraft) :=
  match d.byName.get? name with
  | some i =>
    if i < rootCount ∧ i ∉ d.redeclared then pure (i, { d with redeclared := d.redeclared ++ [i] })
    else throw (.duplicateType name)
  | none => pure (d.nodes.length, d.push name .unknown)

def declare (d : TypeDraft) (r : TypeRecord) : Indexed SnapshotError TypeDraft := do
  let (i, d) ← d.place r.name
  let nodes ← Indexed.modify d.nodes i fun n =>
    { n with nickname := r.nickname, isAbstract := r.isAbstract, isAnonymous := r.isAnonymous }
  let links := match r.parent with
    | some parent => d.links ++ [(i, parent)]
    | none => d.links
  pure { d with nodes, links }

end TypeDraft

namespace TypeTable

def link (byName : Table Nat) (nodes : List TypeNode) (l : Nat × String) : Indexed SnapshotError (List TypeNode) := do
  match byName.get? l.2 with
  | none =>
    let node ← Indexed.get nodes l.1
    throw (.unknownParent node.name l.2)
  | some parent =>
    let nodes ← Indexed.modify nodes l.1 fun n => { n with parent := some parent }
    Indexed.modify nodes parent fun n => { n with children := n.children ++ [l.1] }

/-- Climbs from the parent of a type to the first root, past at most `fuel` other types. -/
def climb (nodes : List TypeNode) (start : Nat) : Nat → Option Nat → Indexed SnapshotError Kind
  | _, none => pure .unknown
  | fuel, some i => do
    if i < rootCount then
      let root ← Indexed.get nodes i
      pure root.kind
    else
      match fuel with
      | 0 =>
        let node ← Indexed.get nodes start
        throw (.cycle node.name)
      | fuel + 1 =>
        let node ← Indexed.get nodes i
        climb nodes start fuel node.parent

def settle (nodes : List TypeNode) (i : Nat) : Indexed SnapshotError (List TypeNode) := do
  let node ← Indexed.get nodes i
  let kind ← climb nodes i nodes.length node.parent
  Indexed.modify nodes i fun n => { n with kind }

/-- Enters the nickname of the type at a place, unless an earlier type carries it. -/
def enterNickname (byNickname : Table Nat) (e : TypeNode × Nat) : Table Nat :=
  match e.1.nickname with
  | none => byNickname
  | some nickname =>
    if (byNickname.get? nickname).isSome then byNickname else byNickname.insert nickname e.2

def ensureKnown (byName : Table Nat) (name : String) (e : SnapshotError) : Indexed SnapshotError Unit :=
  if (byName.get? name).isSome then pure () else throw e

def hide (byName : Table Nat) (hidden : List Nat) (name : String) : Indexed SnapshotError (List Nat) :=
  match byName.get? name with
  | some i => pure (hidden.insert i)
  | none => throw (.unknownLazyType name)

def ofSnapshot (s : Snapshot) : Indexed SnapshotError TypeTable := do
  let d ← s.types.foldlM TypeDraft.declare .roots
  let nodes ← d.links.foldlM (link d.byName) d.nodes
  let nodes ← (List.range' rootCount (nodes.length - rootCount)).foldlM settle nodes
  s.operations.entries.forM fun (nickname, op) =>
    op.arguments.forM fun a => ensureKnown d.byName a.type (.unknownFieldType nickname a.name a.type)
  s.properties.forM fun p => ensureKnown d.byName p.type (.unknownFieldType "VipsImage" p.name p.type)
  s.enums.keys.forM fun name => ensureKnown d.byName name (.unknownEnum name)
  let hidden ← s.lazyTypes.foldlM (hide d.byName) []
  pure {
    nodes
    byName := d.byName
    byNickname := nodes.zipIdx.foldl enterNickname {}
    operations := s.operations
    enums := s.enums
    properties := s.properties
    hidden }

def isHidden (t : TypeTable) (i : Nat) : Bool := t.hidden.contains i

def typeFromName? (t : TypeTable) (name : String) : Option Nat := (t.byName.get? name).filter fun i => !t.isHidden i

def describe (t : TypeTable) (i : Nat) : Indexed RegistryError TypeDescriptor := do
  let node ← Indexed.get t.nodes i
  pure ⟨node.kind, if node.isAnonymous then none else some node.name⟩

def isAbstract (t : TypeTable) (i : Nat) : Indexed RegistryError Bool := do
  let node ← Indexed.get t.nodes i
  pure node.isAbstract

def children (t : TypeTable) (i : Nat) : Indexed RegistryError (List Nat) := do
  let node ← Indexed.get t.nodes i
  pure (node.children.filter fun c => !t.isHidden c)

def nickname? (t : TypeTable) (i : Nat) : Indexed RegistryError (Option String) := do
  let node ← Indexed.get t.nodes i
  pure node.nickname

def descriptor (t : TypeTable) (name : String) : Indexed RegistryError TypeDescriptor :=
  match t.byName.get? name with
  | some i => t.describe i
  | none => throw (.unknownType name)

def argument (t : TypeTable) (a : ArgumentRecord) : Indexed RegistryError Argument := do
  let type ← t.descriptor a.type
  pure ⟨a.name, .ofBits a.flags, type, a.blurb⟩

def ensureConcrete (t : TypeTable) (nickname : String) : Indexed RegistryError Unit :=
  match t.byNickname.get? nickname with
  | none => pure ()
  | some i => do
    let node ← Indexed.get t.nodes i
    if node.isAbstract then throw (.abstract nickname) else pure ()

def operation (t : TypeTable) (nickname : String) : Indexed RegistryError Operation := do
  t.ensureConcrete nickname
  match t.operations.get? nickname with
  | none => throw (.unknownOperation nickname)
  | some op =>
    let arguments ← op.arguments.mapM t.argument
    pure ⟨nickname, op.description, op.deprecated, arguments⟩

def enumValues (t : TypeTable) (i : Nat) : Indexed RegistryError (List String) := do
  let node ← Indexed.get t.nodes i
  if node.kind = .enum then pure ((t.enums.get? node.name).getD [])
  else throw (.notAnEnum node.name)

def property (t : TypeTable) (p : PropertyRecord) : Indexed RegistryError Property := do
  let type ← t.descriptor p.type
  pure ⟨p.name, type, p.blurb⟩

def imageProperties (t : TypeTable) : Indexed RegistryError (List Property) := t.properties.mapM t.property

def force (t : TypeTable) (name : String) : Except RegistryError TypeTable :=
  match t.byName.get? name with
  | some i => .ok { t with hidden := t.hidden.filter (· ≠ i) }
  | none => .error (.unknownType name)

end TypeTable

end Autodoc
