import Autodoc.FileTree
import Autodoc.Registry

namespace Autodoc

inductive GenerateError where
  | registry (e : RegistryError)
  | missingRoot (name : String)
  | anonymousEnum (context field : String)
  | unmappedType (context field type : String)
  | invalidConstant (enum value constant : String)
  | operation (nickname : String) (source : RegistryError)
  | file (path : String) (source : FileError)
  deriving DecidableEq

namespace GenerateError

def message : GenerateError → String
  | registry e => e.message
  | missingRoot name => "root type `" ++ name ++ "` is not registered"
  | anonymousEnum context field =>
    "`" ++ context ++ "`: `" ++ field ++ "` is an enum the registry cannot name"
  | unmappedType context field type =>
    "`" ++ context ++ "`: `" ++ field ++ "` has a type with no host mapping (" ++ type ++ ")"
  | invalidConstant enum value constant =>
    "enum `" ++ enum ++ "`: value `" ++ value ++ "` gives invalid constant name `" ++ constant ++ "`"
  | operation nickname source => "operation `" ++ nickname ++ "`: " ++ source.message
  | file path source => "failed to write " ++ path ++ ": " ++ source.message

def causes : GenerateError → List String
  | operation nickname source => [message (operation nickname source), source.message]
  | file path source => [message (file path source), source.message]
  | e => [e.message]

end GenerateError

end Autodoc
