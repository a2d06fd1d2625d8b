import Autodoc.Text.CaseTable

namespace Autodoc.Text

def upperCode (c : Nat) : List Nat :=
  match upperExpansions.lookup c with
  | some cs => cs
  | none =>
    match upperRuns.find? (·.covers c) with
    | some r => [r.move c]
    | none => [c]

def upperChar (c : Char) : List Char :=
  if c.toNat < 0x80 then [c.toUpper] else (upperCode c.toNat).map Char.ofNat

def upper (s : String) : String :=
  String.ofList (s.toList.flatMap upperChar)

/-- Upper case of the first character; the rest is left alone. -/
def capitalize (s : String) : String :=
  match s.toList with
  | [] => ""
  | c :: cs => String.ofList (upperChar c ++ cs)

def underscored (s : String) : String :=
  String.ofList (s.toList.map fun c => if c = '-' then '_' else c)

end Autodoc.Text
