import Autodoc.Filter.Arithmetic

namespace Autodoc.Filter

inductive Term where
  | identity
  | literal (d : Datum)
  | format (name : Option String) (t : Term)
  | emptyList
  | list (t : Term)
  | emptyObject
  | member (key value : Term)
  | values (t : Term) (optional : Bool)
  | index (t key : Term) (optional : Bool)
  | slice (t : Term) (start stop : Option Term) (optional : Bool)
  | negate (t : Term)
  | pipe (first second : Term)
  | bind (source : Term) (name : String) (body : Term)
  | both (first second : Term)
  | arithmetic (op : Arithmetic) (left right : Term)
  | comparison (op : Comparison) (left right : Term)
  /-- The right side counts unless the left side holds just as `decided` says. -/
  | logic (decided : Bool) (left right : Term)
  | orElse (first second : Term)
  | assign (target value : Term)
  | update (target step : Term)
  | updateArithmetic (op : Arithmetic) (target value : Term)
  | updateElse (target value : Term)
  | label (name : String) (body : Term)
  | leave (name : String)
  | reduce (source : Term) (name : String) (start step : Term)
  | foreach (source : Term) (name : String) (start step emit : Term)
  | attempt (body : Term) (handler : Option Term)
  | ifThen (condition yes no : Term)
  | define (name : String) (params : List String) (body rest : Term)
  | call (name : String) (args : List Term)
  | var (name : String)

instance : Inhabited Term := ⟨.identity⟩

structure Definition where
  name : String
  params : List String
  body : Term

namespace Term

def word (s : String) : Term := .literal (.text s)

def memberNamed (s : String) : Term := .index .identity (word s) false

def recursion : Term := .call "recurse" []

end Term

/-- How a value is taken apart into variables. -/
inductive Pattern where
  | var (name : String)
  | list (items : List Pattern)
  | object (members : List (Term × Pattern))

namespace Pattern

mutual

/-- A term with the variables of a pattern in scope. Intermediate values are kept under numbers, which no
written variable has for a name. -/
def bind (depth : Nat) (source : Term) : Pattern → Term → Term
  | .var x, body => .bind source x body
  | .list ps, body => .bind source (toString depth) (bindItems depth 0 ps body)
  | .object ms, body => .bind source (toString depth) (bindMembers depth ms body)

def bindItems (depth i : Nat) : List Pattern → Term → Term
  | [], body => body
  | p :: ps, body =>
    bind (depth + 1) (.index (.var (toString depth)) (.literal (.int i)) false) p
      (bindItems depth (i + 1) ps body)

def bindMembers (depth : Nat) : List (Term × Pattern) → Term → Term
  | [], body => body
  | (key, p) :: ms, body =>
    bind (depth + 1) (.index (.var (toString depth)) key false) p (bindMembers depth ms body)

end

end Pattern

end Autodoc.Filter
