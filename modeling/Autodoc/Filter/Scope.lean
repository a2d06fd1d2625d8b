import Autodoc.Filter.Function
import Autodoc.Filter.Match
import Autodoc.Filter.Prelude

namespace Autodoc.Filter

/-- The filters that the language itself gives a meaning beyond a function of values. -/
inductive Primitive where
  | empty
  | error
  | path
  | getpath
  | first
  | last
  | limit
  | skip
  | range
  | sortBy
  | groupBy
  | minBy
  | maxBy

def Primitive.find? (name : String) (arity : Nat) : Option Primitive :=
  match name, arity with
  | "empty", 0 => some empty
  | "error", 0 => some error
  | "path", 1 => some path
  | "getpath", 1 => some getpath
  | "first", 1 => some first
  | "last", 1 => some last
  | "limit", 2 => some limit
  | "skip", 2 => some skip
  | "range", 3 => some range
  | "sort_by", 1 => some sortBy
  | "group_by", 1 => some groupBy
  | "min_by", 1 => some minBy
  | "max_by", 1 => some maxBy
  | _, _ => none

def Definition.find? (name : String) (arity : Nat) : Option Definition :=
  prelude.find? fun d => d.name == name && d.params.length == arity

def isBuiltIn (name : String) (arity : Nat) : Bool :=
  (Definition.find? name arity).isSome || (Primitive.find? name arity).isSome
    || match arity with
      | 0 => (inputFunctions.lookup name).isSome
      | 1 => (argumentFunctions.lookup name).isSome
      | 2 => (twoNumberFunctions.lookup name).isSome || (matchFunctions.lookup name).isSome
      | _ => false

structure Scope where
  vars : List String
  labels : List String
  filters : List (String × Nat)

namespace Scope

def empty : Scope := ⟨[], [], []⟩

def withVar (s : Scope) (x : String) : Scope := { s with vars := x :: s.vars }

def withLabel (s : Scope) (x : String) : Scope := { s with labels := x :: s.labels }

def withFilter (s : Scope) (name : String) (arity : Nat) : Scope :=
  { s with filters := (name, arity) :: s.filters }

end Scope

namespace Term

mutual

/-- Whether every name that a term uses is known where it is used. -/
def isClosed (s : Scope) : Term → Bool
  | .identity | .literal _ | .emptyList | .emptyObject => true
  | .format name t => (name.all fun f => (Format.find? f).isSome) && isClosed s t
  | .list t | .negate t | .values t _ => isClosed s t
  | .member t u | .index t u _ | .pipe t u | .both t u | .arithmetic _ t u | .comparison _ t u
  | .logic _ t u | .orElse t u | .assign t u | .update t u | .updateArithmetic _ t u
  | .updateElse t u => isClosed s t && isClosed s u
  | .slice t start stop _ => isClosed s t && isClosedOption s start && isClosedOption s stop
  | .bind t x body => isClosed s t && isClosed (s.withVar x) body
  | .label x body => isClosed (s.withLabel x) body
  | .leave x => s.labels.contains x
  | .reduce t x start step => isClosed s t && isClosed s start && isClosed (s.withVar x) step
  | .foreach t x start step emit =>
    isClosed s t && isClosed s start && isClosed (s.withVar x) step && isClosed (s.withVar x) emit
  | .attempt t handler => isClosed s t && isClosedOption s handler
  | .ifThen c t u => isClosed s c && isClosed s t && isClosed s u
  | .define name params body rest =>
    let s := s.withFilter name params.length
    isClosed (params.foldl (fun s p => s.withFilter p 0) s) body && isClosed s rest
  | .call name args =>
    (s.filters.contains (name, args.length) || isBuiltIn name args.length) && areClosed s args
  | .var x => s.vars.contains x

def isClosedOption (s : Scope) : Option Term → Bool
  | none => true
  | some t => isClosed s t

def areClosed (s : Scope) : List Term → Bool
  | [] => true
  | t :: ts => isClosed s t && areClosed s ts

end

end Term

end Autodoc.Filter
