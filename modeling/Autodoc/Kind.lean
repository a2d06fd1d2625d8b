namespace Autodoc

inductive Kind where
  | bool
  | int
  | double
  | string
  | refString
  | enum
  | flags
  | object
  | image
  | arrayInt
  | arrayDouble
  | arrayImage
  | blob
  | unknown
  deriving DecidableEq

namespace Kind

def all : List Kind :=
  [bool, int, double, string, refString, enum, flags, object, image, arrayInt, arrayDouble, arrayImage,
    blob, unknown]

def name : Kind → String
  | bool => "Bool"
  | int => "Int"
  | double => "Double"
  | string => "String"
  | refString => "RefString"
  | enum => "Enum"
  | flags => "Flags"
  | object => "Object"
  | image => "Image"
  | arrayInt => "ArrayInt"
  | arrayDouble => "ArrayDouble"
  | arrayImage => "ArrayImage"
  | blob => "Blob"
  | unknown => "Unknown"

def ofName? (s : String) : Option Kind := all.find? (·.name = s)

/-- The roots, in the order in which every registry counts them. -/
def roots : List (String × Kind) :=
  [("gboolean", bool), ("gint", int), ("gdouble", double), ("gchararray", string),
    ("VipsRefString", refString), ("GEnum", enum), ("GFlags", flags), ("GObject", object),
    ("VipsImage", image), ("VipsArrayInt", arrayInt), ("VipsArrayDouble", arrayDouble),
    ("VipsArrayImage", arrayImage), ("VipsBlob", blob)]

def ofRoot? (type : String) : Option Kind := roots.lookup type

def root? (k : Kind) : Option String := (roots.find? (·.2 = k)).map Prod.fst

end Kind

/-- A kind together with the type's own name, where the registry can name it. -/
structure TypeDescriptor where
  kind : Kind
  name : Option String
  deriving DecidableEq

def TypeDescriptor.isEnum (t : TypeDescriptor) : Bool := t.kind = .enum

def TypeDescriptor.isImage (t : TypeDescriptor) : Bool := t.kind = .image

end Autodoc
