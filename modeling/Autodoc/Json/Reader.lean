import Autodoc.Json.Numeral

namespace Autodoc.Json

/-- The items of a list after its bracket, up to but without the closing one. The reader is told the index;
`fuel` bounds the number of items. -/
def scanItems (read : Nat → List Char → Scan α) : Nat → Nat → List Char → Scan (List α)
  | 0, _, s => .error (.here .endInList s)
  | fuel + 1, i, s =>
    match skipBlanks s with
    | [] => .error (.here .endInList [])
    | ']' :: r => .ok ([], ']' :: r)
    | c :: r =>
      let item (s : List Char) : Scan (List α) :=
        match read i s with
        | .error e => .error e
        | .ok (x, s') =>
          match scanItems read fuel (i + 1) s' with
          | .error e => .error e
          | .ok (xs, s'') => .ok (x :: xs, s'')
      if i = 0 then item (c :: r)
      else if c = ',' then
        match skipBlanks r with
        | [] => .error (.here .endInValue [])
        | ']' :: r' => .error (.next .trailingComma (']' :: r'))
        | r' => item r'
      else .error (.next .expectedListCommaOrEnd (c :: r))

def scanKey (first : Bool) (s : List Char) : Scan (Option String) :=
  let key (s : List Char) : Scan (Option String) :=
    match scanString [] s with
    | .error e => .error e
    | .ok (k, s') => .ok (some k, s')
  match skipBlanks s with
  | [] => .error (.here .endInObject [])
  | '}' :: r => .ok (none, '}' :: r)
  | c :: r =>
    if first then
      if c = '"' then key r else .error (.next .keyNotText (c :: r))
    else if c = ',' then
      match skipBlanks r with
      | [] => .error (.here .endInValue [])
      | '"' :: r' => key r'
      | '}' :: r' => .error (.next .trailingComma ('}' :: r'))
      | r' => .error (.next .keyNotText r')
    else .error (.next .expectedObjectCommaOrEnd (c :: r))

def scanColon (s : List Char) : Except Fault (List Char) :=
  match skipBlanks s with
  | [] => .error (.here .endInObject [])
  | ':' :: r => .ok r
  | r => .error (.next .expectedColon r)

/-- The members of an object after its brace, up to but without the closing one. `read` is told the key and
works on a state that it hands on. -/
def scanMembers (read : String → σ → List Char → Scan σ) :
    Nat → Bool → σ → List Char → Scan σ
  | 0, _, _, s => .error (.here .endInObject s)
  | fuel + 1, first, state, s =>
    match Scan.under .unread (scanKey first s) with
    | .error e => .error e
    | .ok (none, r) => .ok (state, r)
    | .ok (some k, r) =>
      match read k state r with
      | .error e => .error e
      | .ok (state, r') => scanMembers read fuel false state r'

def scanValue : Nat → List Char → Scan Value
  | 0, s => .error (.next .nestedTooDeep s)
  | depth + 1, s =>
    match skipBlanks s with
    | [] => .error (.here .endInValue [])
    | 'n' :: r => (scanWord "ull".toList r).map (.null, ·)
    | 't' :: r => (scanWord "rue".toList r).map (.bool true, ·)
    | 'f' :: r => (scanWord "alse".toList r).map (.bool false, ·)
    | '-' :: r => (scanNumber true r).map fun (n, r) => (.number n, r)
    | '"' :: r => (scanString [] r).map fun (t, r) => (.text t, r)
    | '[' :: r =>
      if depth = 0 then .error (.next .nestedTooDeep ('[' :: r))
      else
        (scanItems (fun _ => scanValue depth) (r.length + 1) 0 r).map fun (xs, r) => (.list xs, r.tail)
    | '{' :: r =>
      if depth = 0 then .error (.next .nestedTooDeep ('{' :: r))
      else
        let member (k : String) (ms : List (String × Value)) (s : List Char) :
            Scan (List (String × Value)) :=
          match scanColon s with
          | .error e => .error e
          | .ok s' => (scanValue depth s').map fun (v, r) => (putEntry k v ms, r)
        (scanMembers member (r.length + 1) true [] r).map fun (ms, r) => (.object ms, r.tail)
    | c :: r =>
      if isDigit c then (scanNumber false (c :: r)).map fun (n, r) => (.number n, r)
      else .error (.next .expectedValue (c :: r))

def nestingLimit : Nat := 128

def Value.ofTextWithin (depth : Nat) (text : String) : Except DecodeError Value :=
  let whole := text.toList
  match scanValue depth whole with
  | .error e => .error (e.toError whole)
  | .ok (v, s) =>
    match skipBlanks s with
    | [] => .ok v
    | r => .error (Fault.toError whole (.next .trailingCharacters r))

def Value.ofText (text : String) : Except DecodeError Value := ofTextWithin nestingLimit text

end Autodoc.Json
