import Autodoc.Filter.Evaluation

namespace Autodoc.Filter

inductive FilterError where
  | parse
  | compile
  | run
  | output (e : Json.DecodeError)

def FilterError.message : FilterError → String
  | parse => "jq filter rejected at parse"
  | compile => "jq filter rejected at compile"
  | run => "jq:"
  | output e => e.message

def compile (text : String) : Except FilterError Term :=
  match Term.ofText? text with
  | none => .error .parse
  | some t => if t.isClosed .empty then .ok t else .error .compile

def document (d : Datum) : Except FilterError Json.Value := (Json.Value.ofText d.shown).mapError .output

/-- Every document that a filter makes of one, in order. -/
def apply (text : String) (v : Json.Value) : Except FilterError (List Json.Value) := do
  let t ← compile text
  match t.run (.ofJson v) with
  | .error _ => throw .run
  | .ok ds => ds.mapM document

end Autodoc.Filter
