import Autodoc.Json.Problem

namespace Autodoc.Json

structure Fault where
  path : Path
  problem : Problem
  rest : List Char
  ahead : Nat

/-- What a reader returns: a value and the rest of the text, or the fault where it stopped. -/
abbrev Scan (α : Type) := Except Fault (α × List Char)

/-- A flaw found exactly where the rest begins. -/
def Fault.here (f : Flaw) (rest : List Char) : Fault := ⟨[], .flaw f, rest, 0⟩

/-- A flaw found on the first byte of the rest. -/
def Fault.next (f : Flaw) (rest : List Char) : Fault := ⟨[], .flaw f, rest, 1⟩

def Fault.under (s : Segment) (f : Fault) : Fault := { f with path := s :: f.path }

def Scan.under (s : Segment) (x : Scan α) : Scan α := x.mapError (·.under s)

def Position.step (p : Position) (c : Char) : Position :=
  if c = '\n' then ⟨p.line + 1, 0⟩ else ⟨p.line, p.column + c.utf8Size⟩

def Position.advance (p : Position) : List Char → Nat → Position
  | [], _ => p
  | c :: cs, n =>
    if n = 0 then p
    else if c.utf8Size ≤ n then (p.step c).advance cs (n - c.utf8Size)
    else ⟨p.line, p.column + n⟩

def Fault.position (whole : List Char) (f : Fault) : Position :=
  let start := (whole.take (whole.length - f.rest.length)).foldl Position.step ⟨1, 0⟩
  start.advance f.rest f.ahead

def Fault.toError (whole : List Char) (f : Fault) : DecodeError :=
  ⟨f.path, f.problem, some (f.position whole)⟩

end Autodoc.Json
