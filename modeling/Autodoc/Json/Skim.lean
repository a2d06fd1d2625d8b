import Autodoc.Json.Reader

namespace Autodoc.Json

def skimString (s : List Char) : Except Fault (List Char) :=
  match s with
  | [] => .error (.here .endInString [])
  | '"' :: r => .ok r
  | '\\' :: [] => .error (.here .endInString [])
  | '\\' :: c :: r =>
    if c = 'u' then
      match _h : scanUnit r with
      | .error e => .error e
      | .ok (_, r') => skimString r'
    else if c ∈ ['"', '\\', '/', 'b', 'f', 'n', 'r', 't'] then skimString r
    else .error (.next .invalidEscape (c :: r))
  | c :: r =>
    if c.toNat < 0x20 then .error (.here .controlCharacter (c :: r)) else skimString r
termination_by s.length
decreasing_by
  · have := length_of_scanUnit _h
    simp only [List.length_cons]; omega
  all_goals (simp only [List.length_cons]; omega)

def skimExponent (s : List Char) : Except Fault (List Char) :=
  let s :=
    match s with
    | '+' :: r | '-' :: r => r
    | r => r
  match s with
  | [] => .error (.here .invalidNumber [])
  | c :: r => if isDigit c then .ok (digitRun r).2 else .error (.next .invalidNumber (c :: r))

def skimFraction (s : List Char) : Except Fault (List Char) :=
  let (ds, r) := digitRun s
  if ds.isEmpty then .error (.next .invalidNumber r)
  else
    match r with
    | 'e' :: r' | 'E' :: r' => skimExponent r'
    | _ => .ok r

def skimNumber (s : List Char) : Except Fault (List Char) :=
  match s with
  | [] => .error (.here .invalidNumber [])
  | c :: r =>
    if !isDigit c then .error (.next .invalidNumber (c :: r))
    else if c = '0' ∧ (r.head?.any isDigit) then .error (.next .invalidNumber r)
    else
      match if c = '0' then r else (digitRun r).2 with
      | '.' :: r' => skimFraction r'
      | 'e' :: r' | 'E' :: r' => skimExponent r'
      | r' => .ok r'

def skimItems (skim : List Char → Except Fault (List Char)) :
    Nat → Bool → List Char → Except Fault (List Char)
  | 0, _, s => .error (.here .endInList s)
  | fuel + 1, first, s =>
    match skipBlanks s with
    | [] => .error (.here .endInList [])
    | ']' :: r => .ok r
    | c :: r =>
      let item (s : List Char) : Except Fault (List Char) :=
        match skim s with
        | .error e => .error e
        | .ok s' => skimItems skim fuel false s'
      if first then item (c :: r)
      else if c = ',' then item r
      else .error (.next .expectedListCommaOrEnd (c :: r))

def skimKey (s : List Char) : Except Fault (List Char) :=
  match skipBlanks s with
  | [] => .error (.here .endInObject [])
  | '"' :: r =>
    match skimString r with
    | .error e => .error e
    | .ok s' => scanColon s'
  | r => .error (.next .keyNotText r)

def skimMembers (skim : List Char → Except Fault (List Char)) :
    Nat → Bool → List Char → Except Fault (List Char)
  | 0, _, s => .error (.here .endInObject s)
  | fuel + 1, first, s =>
    match skipBlanks s with
    | [] => .error (.here .endInObject [])
    | '}' :: r => .ok r
    | c :: r =>
      let member (s : List Char) : Except Fault (List Char) :=
        match skimKey s with
        | .error e => .error e
        | .ok s' =>
          match skim s' with
          | .error e => .error e
          | .ok s'' => skimMembers skim fuel false s''
      if first then member (c :: r)
      else if c = ',' then member r
      else .error (.next .expectedObjectCommaOrEnd (c :: r))

/-- Any value; `fuel` bounds how deep it nests, and how many items each part has. -/
def skimNested : Nat → List Char → Except Fault (List Char)
  | 0, s => .error (.here .endInValue s)
  | fuel + 1, s =>
    match skipBlanks s with
    | [] => .error (.here .endInValue [])
    | 'n' :: r => scanWord "ull".toList r
    | 't' :: r => scanWord "rue".toList r
    | 'f' :: r => scanWord "alse".toList r
    | '-' :: r => skimNumber r
    | '"' :: r => skimString r
    | '[' :: r => skimItems (skimNested fuel) fuel true r
    | '{' :: r => skimMembers (skimNested fuel) fuel true r
    | c :: r => if isDigit c then skimNumber (c :: r) else .error (.next .expectedValue (c :: r))

/-- Any value. It nests no deeper than it is long, and no part has more items than characters. -/
def skimValue (s : List Char) : Except Fault (List Char) := skimNested (s.length + 1) s

end Autodoc.Json
