import Autodoc.Table

namespace Autodoc.Json

inductive Number where
  | int (n : Int)
  | float (x : Float)

inductive Value where
  | null
  | bool (b : Bool)
  | number (n : Number)
  | text (s : String)
  | list (items : List Value)
  | object (members : List (String × Value))

instance : Inhabited Value := ⟨.null⟩

namespace Value

def member? (v : Value) (key : String) : Option Value :=
  match v with
  | .object members => valueAt? key members
  | _ => none

end Value

end Autodoc.Json
