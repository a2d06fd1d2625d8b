import Autodoc.Json.Scan
import Autodoc.Regex.Match

namespace Autodoc.Regex

structure Choices where
  ignoreCase : Bool
  dotIsAny : Bool
  lazyFirst : Bool
  spaced : Bool

abbrev Ranges := List (Char × Char)

def lastChar : Char := Char.ofNat 0x10FFFF

def digits : Ranges := [('0', '9')]

def wordChars : Ranges := [('0', '9'), ('A', 'Z'), ('_', '_'), ('a', 'z')]

def spaces : Ranges := [('\t', '\r'), (' ', ' ')]

def charBefore (c : Char) : Char := if c.toNat = 0xE000 then Char.ofNat 0xD7FF else Char.ofNat (c.toNat - 1)

def charAfter (c : Char) : Char := if c.toNat = 0xD7FF then Char.ofNat 0xE000 else Char.ofNat (c.toNat + 1)

/-- What lies outside of ranges that are in order and do not touch. -/
def outside (start : Char) : Ranges → Ranges
  | [] => [(start, lastChar)]
  | (a, b) :: rs =>
    (if start < a then [(start, charBefore a)] else []) ++ if b = lastChar then [] else outside (charAfter b) rs

def foldCase (rs : Ranges) : Ranges :=
  rs ++ rs.flatMap fun (a, b) =>
    let shifted (low high : Char) (shift : Int) : Ranges :=
      let first := max a.toNat low.toNat
      let last := min b.toNat high.toNat
      if first ≤ last then [(Char.ofNat (first + shift).toNat, Char.ofNat (last + shift).toNat)] else []
    shifted 'a' 'z' (-32) ++ shifted 'A' 'Z' 32

def Choices.one (o : Choices) (negated : Bool) (rs : Ranges) : Regex :=
  .one negated (if o.ignoreCase then foldCase rs else rs)

def class? : Char → Option Ranges
  | 'd' => some digits
  | 'D' => some (outside '\x00' digits)
  | 'w' => some wordChars
  | 'W' => some (outside '\x00' wordChars)
  | 's' => some spaces
  | 'S' => some (outside '\x00' spaces)
  | _ => none

def escaped? (cs : List Char) : Option (Char × List Char) :=
  match cs with
  | 'n' :: r => some ('\n', r)
  | 't' :: r => some ('\t', r)
  | 'r' :: r => some ('\r', r)
  | 'f' :: r => some ('\x0c', r)
  | 'v' :: r => some ('\x0b', r)
  | 'a' :: r => some ('\x07', r)
  | 'x' :: a :: b :: r => (Json.hexDigits? [a, b]).map fun n => (Char.ofNat n, r)
  | 'u' :: a :: b :: c :: d :: r =>
    match Json.hexDigits? [a, b, c, d] with
    | some n => if Nat.isValidChar n then some (Char.ofNat n, r) else none
    | none => none
  | c :: r => if c.isAlphanum then none else some (c, r)
  | [] => none

def named? (name : String) : Option Ranges :=
  match name with
  | "alpha" => some [('A', 'Z'), ('a', 'z')]
  | "digit" => some digits
  | "alnum" => some [('0', '9'), ('A', 'Z'), ('a', 'z')]
  | "upper" => some [('A', 'Z')]
  | "lower" => some [('a', 'z')]
  | "space" => some spaces
  | "word" => some wordChars
  | "punct" => some [('!', '/'), (':', '@'), ('[', Char.ofNat 0x60), (Char.ofNat 0x7B, '~')]
  | "xdigit" => some [('0', '9'), ('A', 'F'), ('a', 'f')]
  | _ => none

def classItem? (cs : List Char) : Option ((Char ⊕ Ranges) × List Char) :=
  match cs with
  | '[' :: ':' :: r =>
    let (name, r') := r.span (· ≠ ':')
    match named? (String.ofList name), r' with
    | some rs, ':' :: ']' :: r' => some (.inr rs, r')
    | _, _ => none
  | '\\' :: c :: r =>
    match class? c with
    | some rs => some (.inr rs, r)
    | none => (escaped? (c :: r)).map fun (c, r) => (.inl c, r)
  | c :: r => some (.inl c, r)
  | [] => none

/-- The items of a class up to its closing bracket, which may itself come first. -/
def classItems? : Nat → Bool → List Char → Option (Ranges × List Char)
  | 0, _, _ => none
  | fuel + 1, first, cs =>
    if !first && cs.head? = some ']' then some ([], cs.tail)
    else
      match classItem? cs with
      | none => none
      | some (.inr rs, r) => (classItems? fuel false r).map fun (more, r) => (rs ++ more, r)
      | some (.inl a, '-' :: r) =>
        if r.head? = some ']' then
          (classItems? fuel false ('-' :: r)).map fun (more, r) => ((a, a) :: more, r)
        else
          match classItem? r with
          | some (.inl b, r) =>
            if b < a then none else (classItems? fuel false r).map fun (more, r) => ((a, b) :: more, r)
          | _ => none
      | some (.inl a, r) => (classItems? fuel false r).map fun (more, r) => ((a, a) :: more, r)

def number? (cs : List Char) : Option (Nat × List Char) :=
  let (ds, r) := cs.span Char.isDigit
  if ds.isEmpty then none else some ((String.ofList ds).toNat?.getD 0, r)

def bounds? (cs : List Char) : Option (Nat × Option Nat × List Char) := do
  let (least, r) ← number? cs
  match r with
  | '}' :: r => some (least, some least, r)
  | ',' :: '}' :: r => some (least, none, r)
  | ',' :: r =>
    let (most, r) ← number? r
    match r with
    | '}' :: r => if most < least then none else some (least, some most, r)
    | _ => none
  | _ => none

def repetition? (cs : List Char) : Option (Option (Nat × Option Nat) × List Char) :=
  match cs with
  | '*' :: r => some (some (0, none), r)
  | '+' :: r => some (some (1, none), r)
  | '?' :: r => some (some (0, some 1), r)
  | '{' :: r => (bounds? r).map fun (least, most, r) => (some (least, most), r)
  | r => some (none, r)

abbrev Groups := List (Option String)

/-- The text without blanks and comments, where those do not count. -/
def Choices.skip (o : Choices) : Nat → List Char → List Char
  | 0, cs => cs
  | fuel + 1, cs =>
    if !o.spaced then cs
    else
      match cs with
      | '#' :: r => o.skip fuel (r.dropWhile (· ≠ '\n'))
      | c :: r => if c.isWhitespace then o.skip fuel r else cs
      | [] => []

/-- How a group begins, after its parenthesis: whether it counts, its name, and its text. -/
def groupStart? (cs : List Char) : Option (Bool × Option String × List Char) :=
  let named (r : List Char) : Option (Bool × Option String × List Char) :=
    let (name, r) := r.span isWordChar
    match r with
    | '>' :: r => if name.isEmpty then none else some (true, some (String.ofList name), r)
    | _ => none
  match cs with
  | '?' :: ':' :: r => some (false, none, r)
  | '?' :: 'P' :: '<' :: r => named r
  | '?' :: '<' :: r => named r
  | '?' :: _ => none
  | r => some (true, none, r)

mutual

def readChoice (o : Choices) : Nat → Groups → List Char → Option (Regex × Groups × List Char)
  | 0, _, _ => none
  | fuel + 1, gs, cs => do
    let (a, gs, r) ← readSequence o fuel gs cs
    match r with
    | '|' :: r => do
      let (b, gs, r) ← readChoice o fuel gs r
      some (.either a b, gs, r)
    | r => some (a, gs, r)

def readSequence (o : Choices) : Nat → Groups → List Char → Option (Regex × Groups × List Char)
  | 0, _, _ => none
  | fuel + 1, gs, cs =>
    match o.skip cs.length cs with
    | [] => some (.empty, gs, [])
    | '|' :: r => some (.empty, gs, '|' :: r)
    | ')' :: r => some (.empty, gs, ')' :: r)
    | r => do
      let (a, gs, r) ← readItem o fuel gs r
      let (b, gs, r) ← readRepeated o fuel a gs r
      let (c, gs, r) ← readSequence o fuel gs r
      some (.seq b c, gs, r)

def readRepeated (o : Choices) : Nat → Regex → Groups → List Char → Option (Regex × Groups × List Char)
  | 0, _, _, _ => none
  | fuel + 1, a, gs, cs => do
    match ← repetition? (o.skip cs.length cs) with
    | (none, r) => some (a, gs, r)
    | (some (least, most), r) =>
      let (isLazy, r) := match r with
        | '?' :: r => (true, r)
        | r => (false, r)
      readRepeated o fuel (.repeated a least most (isLazy == o.lazyFirst)) gs r

def readItem (o : Choices) : Nat → Groups → List Char → Option (Regex × Groups × List Char)
  | 0, _, _ => none
  | fuel + 1, gs, cs =>
    match cs with
    | '(' :: r => do
      let (counts, name, r) ← groupStart? r
      let index := gs.length
      let gs := if counts then gs ++ [name] else gs
      let (a, gs, r) ← readChoice o fuel gs r
      match r with
      | ')' :: r => some (if counts then .group index a else a, gs, r)
      | _ => none
    | '[' :: '^' :: r => (classItems? (r.length + 1) true r).map fun (rs, r) => (o.one true rs, gs, r)
    | '[' :: r => (classItems? (r.length + 1) true r).map fun (rs, r) => (o.one false rs, gs, r)
    | '.' :: r => some (.one true (if o.dotIsAny then [] else [('\n', '\n')]), gs, r)
    | '^' :: r => some (.atStart, gs, r)
    | '$' :: r => some (.atEnd, gs, r)
    | '\\' :: 'b' :: r => some (.atWordEdge false, gs, r)
    | '\\' :: 'B' :: r => some (.atWordEdge true, gs, r)
    | '\\' :: 'A' :: r => some (.atStart, gs, r)
    | '\\' :: 'z' :: r => some (.atEnd, gs, r)
    | '\\' :: c :: r =>
      match class? c with
      | some rs => some (o.one false rs, gs, r)
      | none => (escaped? (c :: r)).map fun (c, r) => (o.one false [(c, c)], gs, r)
    | c :: r =>
      if "*+?\x7b)|".toList.contains c then none else some (o.one false [(c, c)], gs, r)
    | [] => none

end

/-- An expression with the names of its groups; the first group is the whole. -/
structure Compiled where
  regex : Regex
  names : List (Option String)

def ofText? (o : Choices) (text : String) : Option Compiled :=
  match readChoice o (4 * text.length + 8) [none] text.toList with
  | some (r, gs, []) => some ⟨r, gs⟩
  | _ => none

end Autodoc.Regex
