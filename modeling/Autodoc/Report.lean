import Autodoc.GenerateError
import Autodoc.Roles

namespace Autodoc

namespace Report

def argumentLines (a : Argument) : String :=
  "  " ++ a.name ++ ":\n"
    ++ "    flags: " ++ toString a.flags.bits ++ " (" ++ ", ".intercalate a.flags.names ++ ")\n"
    ++ "    blurb: " ++ a.blurb ++ "\n"
    ++ "    type: " ++ a.type.name.getD "<anonymous>" ++ "\n"

def names (args : List Argument) : String := ", ".intercalate (args.map (·.name))

def render (nickname : String) (op : Operation) : String :=
  let roles := Roles.ofArguments op.arguments
  nickname ++ ":\n"
    ++ "  description: " ++ op.description ++ "\n"
    ++ (if op.deprecated then "  deprecated\n" else "")
    ++ String.join (op.arguments.map argumentLines)
    ++ "required input: " ++ names roles.inputs ++ "\n"
    ++ "required output: " ++ names roles.outputs ++ "\n"
    ++ "optional input: " ++ names roles.optionalInputs ++ "\n"
    ++ "optional output: " ++ names roles.optionalOutputs ++ "\n"
    ++ "member_this: " ++ (roles.receiver.map (·.name)).getD "" ++ "\n"
    ++ "method args: " ++ names roles.inputs ++ "\n"

end Report

def Registry.report (r : Registry) (nickname : String) : Except GenerateError String :=
  match r.operation nickname with
  | .error e => .error (.operation nickname e)
  | .ok op => .ok (Report.render nickname op)

end Autodoc
