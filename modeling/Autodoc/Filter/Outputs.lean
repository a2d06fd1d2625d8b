import Autodoc.Filter.Datum

namespace Autodoc.Filter

inductive Outputs (α : Type) where
  | done
  | next (item : α) (rest : Unit → Outputs α)

/-- What comes up in place of a value. -/
inductive Raised where
  | error (d : Datum)
  | leave (label : Nat)
  | exhausted

abbrev Results (α : Type) := Outputs (Except Raised α)

namespace Outputs

def one (a : α) : Outputs α := .next a fun _ => .done

def ofList : List α → Outputs α
  | [] => .done
  | a :: as => .next a fun _ => ofList as

def append : Outputs α → (Unit → Outputs α) → Outputs α
  | .done, t => t ()
  | .next a rest, t => .next a fun _ => append (rest ()) t

def flatMap (f : α → Outputs β) : Outputs α → Outputs β
  | .done => .done
  | .next a rest => append (f a) fun _ => flatMap f (rest ())

def map (f : α → β) : Outputs α → Outputs β
  | .done => .done
  | .next a rest => .next (f a) fun _ => map f (rest ())

def filter (p : α → Bool) : Outputs α → Outputs α
  | .done => .done
  | .next a rest => if p a then .next a fun _ => filter p (rest ()) else filter p (rest ())

def take : Nat → Outputs α → Outputs α
  | 0, _ => .done
  | _, .done => .done
  | n + 1, .next a rest => .next a fun _ => if n = 0 then .done else take n (rest ())

def drop : Nat → Outputs α → Outputs α
  | 0, s => s
  | _, .done => .done
  | n + 1, .next _ rest => drop n (rest ())

def value (a : α) : Results α := one (.ok a)

def raise (r : Raised) : Results α := one (.error r)

def ofExcept (x : Except Datum α) : Results α := one (x.mapError .error)

def ofRaised : Except Raised α → Results α
  | .ok a => value a
  | .error r => raise r

/-- Goes on with every value; what was raised stays in its place. -/
def andThen (s : Results α) (f : α → Results β) : Results β :=
  s.flatMap fun
    | .ok a => f a
    | .error r => raise r

def collect (acc : List α) : Results α → Except Raised (List α)
  | .done => .ok acc.reverse
  | .next (.ok a) rest => collect (a :: acc) (rest ())
  | .next (.error r) _ => .error r

def first? : Results α → Except Raised (Option α)
  | .done => .ok none
  | .next (.ok a) _ => .ok (some a)
  | .next (.error r) _ => .error r

def last (latest : Option α) : Results α → Results α
  | .done =>
    match latest with
    | none => .done
    | some a => value a
  | .next (.ok a) rest => last (some a) (rest ())
  | .next (.error r) _ => raise r

/-- Runs a step on a state for every value in turn, and goes on from every state that a step puts out. -/
def fold (step : α → σ → Results σ) : Results α → σ → Results σ
  | .done, s => value s
  | .next (.error r) _, _ => raise r
  | .next (.ok a) rest, s => andThen (step a s) fun s => fold step (rest ()) s

/-- Like `fold`, with what `emit` makes of every state on the way. -/
def scan (step : α → σ → Results σ) (emit : α → σ → Results β) : Results α → σ → Results β
  | .done, _ => .done
  | .next (.error r) _, _ => raise r
  | .next (.ok a) rest, s =>
    andThen (step a s) fun s => append (emit a s) fun _ => scan step emit (rest ()) s

def untilLeft (label : Nat) : Results α → Results α
  | .done => .done
  | .next (.error (.leave l)) rest =>
    if l = label then .done else .next (.error (.leave l)) fun _ => untilLeft label (rest ())
  | .next a rest => .next a fun _ => untilLeft label (rest ())

def rescue (handle : Datum → Results α) (s : Results α) : Results α :=
  s.flatMap fun
    | .error (.error d) => handle d
    | a => one a

end Outputs

end Autodoc.Filter
