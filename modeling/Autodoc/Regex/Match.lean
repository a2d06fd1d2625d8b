namespace Autodoc

inductive Regex where
  | empty
  | one (negated : Bool) (ranges : List (Char × Char))
  | seq (first second : Regex)
  | either (first second : Regex)
  | repeated (r : Regex) (least : Nat) (most : Option Nat) (greedy : Bool)
  | group (index : Nat) (r : Regex)
  | atStart
  | atEnd
  | atWordEdge (negated : Bool)

instance : Inhabited Regex := ⟨.empty⟩

namespace Regex

structure Place where
  position : Nat
  before : Option Char
  rest : List Char
  groups : List (Nat × Nat × Nat)

def isWordChar (c : Char) : Bool := c.isAlphanum || c == '_'

namespace Place

def start (text : List Char) : Place := ⟨0, none, text, []⟩

def advance (p : Place) : Option Place :=
  match p.rest with
  | [] => none
  | c :: r => some { p with position := p.position + 1, before := some c, rest := r }

def atWordEdge (p : Place) : Bool := p.before.any isWordChar != p.rest.head?.any isWordChar

def span? (p : Place) (group : Nat) : Option (Nat × Nat) := p.groups.lookup group

end Place

abbrev Continuation := Place → Option Place

/-- Repeats a step. A round that is not owed has to get on. -/
def loop (step : Continuation → Continuation) (greedy : Bool) (k : Continuation) :
    Nat → Nat → Option Nat → Continuation
  | 0, _, _, p => k p
  | fuel + 1, least, most, p =>
    let again : Option Place :=
      if most = some 0 then none
      else
        step (fun p' =>
          if p'.position = p.position ∧ least = 0 then none
          else loop step greedy k fuel (least - 1) (most.map (· - 1)) p') p
    if 0 < least then again
    else if greedy then again <|> k p
    else k p <|> again

def isWithin (ranges : List (Char × Char)) (c : Char) : Bool :=
  ranges.any fun (a, b) => a ≤ c && c ≤ b

def run : Regex → Continuation → Continuation
  | empty, k, p => k p
  | one negated ranges, k, p =>
    if p.rest.head?.any fun c => isWithin ranges c != negated then p.advance.bind k else none
  | seq a b, k, p => run a (run b k) p
  | either a b, k, p => run a k p <|> run b k p
  | repeated r least most greedy, k, p =>
    loop (run r) greedy k (p.rest.length + least + 1) least most p
  | group i r, k, p =>
    run r (fun p' => k { p' with groups := (i, p.position, p'.position) :: p'.groups }) p
  | atStart, k, p => if p.before.isNone then k p else none
  | atEnd, k, p => if p.rest.isEmpty then k p else none
  | atWordEdge negated, k, p => if p.atWordEdge != negated then k p else none

def find? (r : Regex) : Nat → Place → Option Place
  | 0, _ => none
  | fuel + 1, p =>
    match run (group 0 r) some { p with groups := [] } with
    | some m => some m
    | none => p.advance.bind (find? r fuel)

/-- All matches, one after the other. After an empty match the search goes on one character further, and an
empty match right after another match is passed over. -/
def findAll (r : Regex) (last : Option Nat) : Nat → Place → List Place
  | 0, _ => []
  | fuel + 1, p =>
    match r.find? (p.rest.length + 1) p with
    | none => []
    | some m =>
      match m.span? 0 with
      | none => []
      | some (a, b) =>
        if a < b then m :: findAll r (some b) fuel m
        else
          let more := (m.advance.map (findAll r last fuel)).getD []
          if last = some a then more else m :: more

def matchesIn (r : Regex) (text : List Char) : List Place :=
  findAll r none (2 * text.length + 2) (.start text)

end Regex

end Autodoc
