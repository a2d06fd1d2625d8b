import Autodoc.Filter.Access
import Autodoc.Regex.Reader

namespace Autodoc.Filter

structure MatchFlags where
  everywhere : Bool
  skipEmpty : Bool
  choices : Regex.Choices

def MatchFlags.ofText? (s : String) : Option MatchFlags :=
  let has (c : Char) : Bool := s.toList.contains c
  if s.toList.all "gnixslp".toList.contains then
    some ⟨has 'g', has 'n' || has 'p', ⟨has 'i', has 's' || has 'p', has 'l', has 'x'⟩⟩
  else none

def textBetween (s : List Char) (a b : Nat) : Datum :=
  .text (String.ofList ((s.drop a).take (b - a)))

def matchGroup (s : List Char) (name : Option String) (a b : Nat) : Datum :=
  .object ([("offset", .int a), ("length", .int (b - a : Nat)), ("string", textBetween s a b)]
    ++ name.toList.map fun n => ("name", .text n))

def matchGroups (s : List Char) (names : List (Option String)) (m : Regex.Place) : Datum :=
  .list (names.zipIdx.filterMap fun (name, i) => (m.span? i).map fun (a, b) => matchGroup s name a b)

def matchesOf (input expression flags : Datum) : Except Datum (List Char × List ((Nat × Nat) × Datum)) :=
  match input, expression, flags with
  | .text s, .text e, .text f =>
    match MatchFlags.ofText? f with
    | none => .error (.text (f ++ " is not a valid modifier string"))
    | some f =>
      match Regex.ofText? f.choices e with
      | none => .error (.text ("invalid regex: " ++ e))
      | some c =>
        let cs := s.toList
        let found := (c.regex.matchesIn cs).filterMap fun m =>
          (m.span? 0).bind fun (a, b) =>
            if cs.length ≤ a ∨ (f.skipEmpty ∧ a = b) then none
            else some ((a, b), matchGroups cs c.names m)
        .ok (cs, if f.everywhere then found else found.take 1)
  | .text _, .text _, d => .error (d.cannotUse "string")
  | .text _, d, _ => .error (d.cannotUse "string")
  | d, _, _ => .error (d.cannotUse "string")

/-- The parts of a text between matches, each followed by what `shown` makes of the match. -/
def partsFrom (shown : Datum → List Datum) (cs : List Char) (start : Nat) :
    List ((Nat × Nat) × Datum) → List Datum
  | [] => [textBetween cs start cs.length]
  | ((a, b), m) :: ms => textBetween cs start a :: shown m ++ partsFrom shown cs b ms

def matchFunctions : List (String × (Datum → Datum → Datum → Except Datum Datum)) :=
  [("matches", fun d e f => (matchesOf d e f).map fun (_, ms) => .list (ms.map Prod.snd)),
    ("split_matches", fun d e f => (matchesOf d e f).map fun (cs, ms) =>
      .list (partsFrom (fun m => [m]) cs 0 ms)),
    ("split_", fun d e f => (matchesOf d e f).map fun (cs, ms) =>
      .list (partsFrom (fun _ => []) cs 0 ms))]

end Autodoc.Filter
