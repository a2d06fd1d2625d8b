import Autodoc.Argument

namespace Autodoc

namespace Argument

def isLive (a : Argument) : Bool := !a.flags.deprecated

def isReceiver (a : Argument) : Bool := a.flags.isRequiredInput && a.type.isImage

def isOutput (a : Argument) : Bool :=
  a.flags.isRequiredOutput || (a.flags.isRequiredInput && a.flags.modify)

def isInput (a : Argument) : Bool := !a.isOutput && a.flags.isRequiredInput

def isOptionalInput (a : Argument) : Bool := !a.flags.required && a.flags.input

def isOptionalOutput (a : Argument) : Bool := !a.flags.required && a.flags.output

end Argument

structure Roles where
  receiver : Option Argument
  inputs : List Argument
  outputs : List Argument
  /-- Optional arguments are no part of a signature, and deprecated ones are still taken when called. -/
  optionalInputs : List Argument
  optionalOutputs : List Argument

def Roles.ofArguments (args : List Argument) : Roles :=
  let live := args.filter (·.isLive)
  let others := live.eraseP (·.isReceiver)
  { receiver := live.find? (·.isReceiver)
    inputs := others.filter (·.isInput)
    outputs := others.filter (·.isOutput)
    optionalInputs := args.filter (·.isOptionalInput)
    optionalOutputs := args.filter (·.isOptionalOutput) }

inductive ReturnShape where
  | void
  | single (a : Argument)
  | aggregate
  deriving DecidableEq

namespace Roles

def returnShape (r : Roles) : ReturnShape :=
  match r.outputs with
  | [] => .void
  | [a] => .single a
  | _ => .aggregate

def isStatic (r : Roles) : Bool := r.receiver.isNone

/-- Enum outputs, then enum inputs. -/
def enumArguments (r : Roles) : List Argument := (r.outputs ++ r.inputs).filter (·.type.isEnum)

end Roles

end Autodoc
