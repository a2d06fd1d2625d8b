import Autodoc.Config

namespace Autodoc

open Json

def UnknownTypes.name : UnknownTypes → String
  | sentinel => "sentinel"
  | fail => "fail"

namespace Json.Value

def ofNames (names : List String) : Value := .list (names.map .text)

def ofTable (t : Table String) : Value := .object (t.entries.map fun e => (e.1, .text e.2))

end Json.Value

def HeaderConfig.members (h : HeaderConfig) : List (String × Value) :=
  [("php_version", .text h.phpVersion), ("copyright_year", .text h.copyrightYear),
    ("copyright_holder", .text h.copyrightHolder), ("category", .text h.category), ("author", .text h.author),
    ("license", .text h.license), ("link", .text h.link)]

namespace Config

def membersWith (c : Config) (header : Value) : List (String × Value) :=
  [("library_prefix", .text c.libraryPrefix), ("namespace", .text c.hostNamespace),
    ("operation_root", .text c.operationRoot), ("enum_root", .text c.enumRoot),
    ("autodoc_class", .text c.autodocClass), ("deny_list", .ofNames c.denyList), ("synonyms", .ofNames c.synonyms),
    ("lazy_enum_types", .ofNames c.lazyEnumTypes), ("reserved_names", .ofTable c.reservedNames),
    ("unknown_types", .text c.unknownTypes.name), ("argument_overrides", .ofTable c.argumentOverrides),
    ("result_overrides", .ofTable c.resultOverrides), ("header", header)]

/-- The document that gives all fields. -/
def toValue (c : Config) : Value := .object (c.membersWith (.object c.header.members))

end Config

end Autodoc
