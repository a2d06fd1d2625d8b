import Autodoc.Json.Numeral
import Autodoc.Text.Space

namespace Autodoc.Filter

mutual

inductive Token where
  | word (name : String)
  | var (name : String)
  | format (name : String)
  | number (written : String)
  | key (name : String)
  | sign (s : String)
  | text (pieces : List Piece)

inductive Piece where
  | chars (s : String)
  | hole (tokens : List Token)

end

namespace Token

def isNameStart (c : Char) : Bool := c.isAlpha || c == '_'

def isNameChar (c : Char) : Bool := c.isAlphanum || c == '_'

def isOperator (c : Char) : Bool := "|=!<>+-*/%".toList.contains c

def isMark (c : Char) : Bool := ":;,?()[]\x7b\x7d".toList.contains c

def spanName (cs : List Char) : String × List Char :=
  let (name, r) := cs.span isNameChar
  (String.ofList name, r)

/-- A numeral: digits, perhaps a point and more digits, perhaps an exponent. -/
def spanNumber (cs : List Char) : Option (String × List Char) :=
  let (whole, r) := cs.span Json.isDigit
  let (fraction, r) :=
    match r with
    | '.' :: r =>
      let (ds, r) := r.span Json.isDigit
      ('.' :: ds, r)
    | r => ([], r)
  match r with
  | e :: r' =>
    if e = 'e' ∨ e = 'E' then
      let (direction, r') := r'.splitAt (if r'.head?.any "+-".toList.contains then 1 else 0)
      let (ds, r') := r'.span Json.isDigit
      if ds.isEmpty then none
      else some (String.ofList (whole ++ fraction ++ e :: direction ++ ds), r')
    else some (String.ofList (whole ++ fraction), e :: r')
  | [] => some (String.ofList (whole ++ fraction), [])

def escaped? (cs : List Char) : Option (Char × List Char) :=
  match cs with
  | '"' :: r => some ('"', r)
  | '\\' :: r => some ('\\', r)
  | '/' :: r => some ('/', r)
  | 'b' :: r => some ('\x08', r)
  | 'f' :: r => some ('\x0c', r)
  | 'n' :: r => some ('\n', r)
  | 'r' :: r => some ('\r', r)
  | 't' :: r => some ('\t', r)
  | 'u' :: r =>
    match Json.hexDigits? (r.take 4) with
    | some n => if r.length < 4 ∨ !Nat.isValidChar n then none else some (Char.ofNat n, r.drop 4)
    | none => none
  | _ => none

mutual

/-- The tokens of a filter, to the end of the text or, in a hole, to the parenthesis that closes it; `depth`
counts the parentheses that are open in the hole. -/
def scan (hole : Bool) : Nat → Nat → List Char → Option (List Token × List Char)
  | 0, _, _ => none
  | fuel + 1, depth, cs =>
    let followed (t : Token) (depth : Nat) (r : List Char) : Option (List Token × List Char) :=
      match scan hole fuel depth r with
      | some (ts, r) => some (t :: ts, r)
      | none => none
    match cs.dropWhile Text.isSpace with
    | [] => if hole then none else some ([], [])
    | '#' :: r => scan hole fuel depth (r.dropWhile (· ≠ '\n'))
    | '"' :: r =>
      match scanText fuel [] r with
      | some (ps, r) => followed (.text ps) depth r
      | none => none
    | '$' :: c :: r =>
      if isNameStart c then
        let (name, r) := spanName (c :: r)
        followed (.var name) depth r
      else none
    | '@' :: c :: r =>
      if isNameStart c then
        let (name, r) := spanName (c :: r)
        followed (.format name) depth r
      else none
    | '.' :: '.' :: r => followed (.sign "..") depth r
    | '.' :: c :: r =>
      if isNameStart c then
        let (name, r) := spanName (c :: r)
        followed (.key name) depth r
      else followed (.sign ".") depth (c :: r)
    | '.' :: r => followed (.sign ".") depth r
    | ')' :: r =>
      if hole && depth == 0 then some ([], r) else followed (.sign ")") (depth - 1) r
    | '(' :: r => followed (.sign "(") (depth + 1) r
    | c :: r =>
      if isNameStart c then
        let (name, r) := spanName (c :: r)
        followed (.word name) depth r
      else if Json.isDigit c then
        match spanNumber (c :: r) with
        | some (w, r) => followed (.number w) depth r
        | none => none
      else if isOperator c then
        let (op, r) := (c :: r).span isOperator
        followed (.sign (String.ofList op)) depth r
      else if isMark c then followed (.sign (String.singleton c)) depth r
      else none

/-- The pieces of a text after its opening quote, to the closing one; `acc` holds the characters since the
last hole, backward. -/
def scanText : Nat → List Char → List Char → Option (List Piece × List Char)
  | 0, _, _ => none
  | fuel + 1, acc, cs =>
    match cs with
    | [] => none
    | '"' :: r => some ([.chars (String.ofList acc.reverse)], r)
    | '\\' :: '(' :: r =>
      match scan true fuel 0 r with
      | some (ts, r) =>
        match scanText fuel [] r with
        | some (ps, r) => some (.chars (String.ofList acc.reverse) :: .hole ts :: ps, r)
        | none => none
      | none => none
    | '\\' :: r =>
      match escaped? r with
      | some (c, r) => scanText fuel (c :: acc) r
      | none => none
    | c :: r => scanText fuel (c :: acc) r

end

def ofText? (text : String) : Option (List Token) :=
  match scan false (text.length + 1) 0 text.toList with
  | some (ts, _) => some ts
  | none => none

end Token

end Autodoc.Filter
