import Autodoc.Config
import Autodoc.Kind
import Autodoc.Log

namespace Autodoc

inductive TypeUse where
  | argument
  | result
  deriving DecidableEq

structure HostTable where
  byName : Table String
  byKind : Kind → Option String

/-- The exact name first, then the kind. -/
def HostTable.lookup (t : HostTable) (d : TypeDescriptor) : Option String :=
  match d.name.bind t.byName.get? with
  | some host => some host
  | none => t.byKind d.kind

/-- An argument of an array kind takes a list or a single element; a result of one is a plain array. -/
def TypeUse.defaults (u : TypeUse) : Kind → Option String
  | .bool => some "bool"
  | .int => some "integer"
  | .double => some "float"
  | .string => some "string"
  | .refString => some "string"
  | .enum => some "string"
  | .flags => some "integer"
  | .object => some "string"
  | .image => some "Image"
  | .arrayInt => some (if u = .argument then "integer[]|integer" else "array")
  | .arrayDouble => some (if u = .argument then "float[]|float" else "array")
  | .arrayImage => some (if u = .argument then "Image[]|Image" else "array")
  | .blob => some "string"
  | .unknown => none

def Config.hostTable (c : Config) : TypeUse → HostTable
  | .argument => ⟨c.argumentOverrides, TypeUse.defaults .argument⟩
  | .result => ⟨c.resultOverrides, TypeUse.defaults .result⟩

structure UnmappedType where
  shown : String

def UnmappedType.message (e : UnmappedType) : String := "no host type for " ++ e.shown

def unknownHostType : String := "<unknown type>"

def TypeDescriptor.shown (d : TypeDescriptor) : String := d.name.getD d.kind.name

def Config.hostType (c : Config) (d : TypeDescriptor) (u : TypeUse) : Logged UnmappedType String :=
  match (c.hostTable u).lookup d with
  | some host => pure host
  | none =>
    match c.unknownTypes with
    | .sentinel => do
      .note .warn "no host type mapping, emitting sentinel" [("ty", d.shown)]
      pure unknownHostType
    | .fail => .fail ⟨d.shown⟩

end Autodoc
