import Autodoc.Config
import Autodoc.FileTree

namespace Autodoc

inductive ConfigError where
  | file (e : FileError)
  | decode (e : Json.DecodeError)

namespace ConfigError

def message : ConfigError → String
  | file e => "failed to read config file: " ++ e.message
  | decode e => "invalid config: " ++ e.shown

def causes : ConfigError → List String
  | file e => [message (file e), e.message]
  | decode e => [message (decode e), e.shown]

end ConfigError

def Config.load (t : FileTree) (path : String) : Except ConfigError Config :=
  match t.readText path with
  | .error e => .error (.file e)
  | .ok text => (Config.schema.decodeText text).mapError .decode

end Autodoc
