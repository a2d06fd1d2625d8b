import Autodoc.FileTree

namespace Autodoc

inductive PatternFault where
  | range
  | wildcards
  | recursion
  deriving DecidableEq

structure PatternError where
  position : Nat
  fault : PatternFault
  deriving DecidableEq

def PatternFault.message : PatternFault → String
  | range => "invalid range pattern"
  | wildcards => "wildcards are either regular `*` or recursive `**`"
  | recursion => "recursive wildcards must form a single path component"

def PatternError.message (e : PatternError) : String :=
  "Pattern syntax error near position " ++ toString e.position ++ ": " ++ e.fault.message

/-- What stands for a part of a name. -/
inductive Glyph where
  | exactly (c : Char)
  | anyOne
  | oneOf (ranges : List (Char × Char))
  | noneOf (ranges : List (Char × Char))
  | anyRun
  | anyDirectories
  deriving DecidableEq

namespace Glyph

def ranges : List Char → List (Char × Char)
  | a :: '-' :: b :: r => (a, b) :: ranges r
  | a :: r => (a, a) :: ranges r
  | [] => []

/-- The glyph of a bracket, after the opening one, and what follows the closing one. The first character in
it may be a closing bracket itself. -/
def bracket? (cs : List Char) : Option (Glyph × List Char) :=
  match cs with
  | '!' :: c :: r => (r.idxOf? ']').map fun j => (noneOf (ranges (c :: r.take j)), r.drop (j + 1))
  | '!' :: [] => none
  | c :: r => (r.idxOf? ']').map fun j => (oneOf (ranges (c :: r.take j)), r.drop (j + 1))
  | [] => none

/-- The glyphs of a pattern from position `i` on; `start` says whether a part of the path begins there. At
most `fuel` of them. -/
def scan : Nat → Nat → Bool → List Char → Except PatternError (List Glyph)
  | 0, _, _, _ => .ok []
  | fuel + 1, i, start, cs =>
    match cs with
    | [] => .ok []
    | '?' :: r => (scan fuel (i + 1) false r).map (anyOne :: ·)
    | '*' :: '*' :: '*' :: _ => .error ⟨i + 2, .wildcards⟩
    | '*' :: '*' :: r =>
      if !start then .error ⟨i - 1, .recursion⟩
      else
        match r with
        | [] => .ok [anyDirectories]
        | '/' :: r => (scan fuel (i + 3) true r).map (anyDirectories :: ·)
        | _ => .error ⟨i + 2, .recursion⟩
    | '*' :: r => (scan fuel (i + 1) false r).map (anyRun :: ·)
    | '[' :: r =>
      match bracket? r with
      | none => .error ⟨i, .range⟩
      | some (g, r') => (scan fuel (i + 1 + (r.length - r'.length)) false r').map (g :: ·)
    | c :: r => (scan fuel (i + 1) (c == '/') r).map (exactly c :: ·)

def ofText (text : String) : Except PatternError (List Glyph) :=
  scan (text.length + 1) 0 true text.toList

def isWithin (ranges : List (Char × Char)) (c : Char) : Bool :=
  ranges.any fun (a, b) => a ≤ c && c ≤ b

def suffixes : List α → List (List α)
  | [] => [[]]
  | a :: as => (a :: as) :: suffixes as

def describe : List Glyph → List Char → Bool
  | [], cs => cs.isEmpty
  | anyRun :: gs, cs | anyDirectories :: gs, cs => (suffixes cs).any (describe gs)
  | _ :: _, [] => false
  | exactly c' :: gs, c :: cs => c' == c && describe gs cs
  | anyOne :: gs, _ :: cs => describe gs cs
  | oneOf rs :: gs, c :: cs => isWithin rs c && describe gs cs
  | noneOf rs :: gs, c :: cs => !isWithin rs c && describe gs cs

def literal? : List Glyph → Option (List Char)
  | [] => some []
  | exactly c :: gs => (literal? gs).map (c :: ·)
  | _ => none

end Glyph

/-- A pattern, part by part of the path. -/
structure PathPattern where
  absolute : Bool
  parts : List (List Glyph)
  directory : Bool

namespace PathPattern

def ofText (text : String) : Except PatternError PathPattern := do
  let _ ← Glyph.ofText text
  let rest := text.toList.dropWhile (· = '/')
  let names := splitPath (String.ofList rest)
  let names := if names.getLast? = some "" then names.dropLast else names
  let parts ← names.mapM Glyph.ofText
  return ⟨text.startsWith "/", parts, text.endsWith "/"⟩

def isHere (path : String) : Bool :=
  match splitPath path with
  | "." :: rest => rest.all fun p => p = "" ∨ p = "."
  | _ => false

def below (path name : String) : String := if isHere path then name else joinPath path name

mutual

/-- The paths below `path` that the parts lead to. -/
def search (t : FileTree) (directory : Bool) : Nat → List (List Glyph) → String → List String
  | 0, _, _ => []
  | _, [], _ => []
  | fuel + 1, part :: parts, path =>
    let reached (next : String) : List String :=
      if !parts.isEmpty then search t directory fuel parts next
      else if directory && !t.isDirectory next then []
      else [next]
    match Glyph.literal? part with
    | some cs =>
      let name := String.ofList cs
      let next := below path name
      let special := name == "." || name == ".."
      if if special then t.isDirectory path else t.holds next then reached next else []
    | none =>
      if !t.isDirectory path then []
      else
        let dots := if part.head? = some (.exactly '.') then [".", ".."] else []
        (t.namesIn path).flatMap (fun name => visit t directory fuel (part :: parts) path name)
          ++ (dots.filter fun d => Glyph.describe part d.toList).flatMap fun d => reached (joinPath path d)

def visit (t : FileTree) (directory : Bool) : Nat → List (List Glyph) → String → String → List String
  | 0, _, _, _ => []
  | fuel + 1, parts, path, name =>
    let here := below path name
    let named (parts : List (List Glyph)) : List String :=
      match parts with
      | [] => []
      | part :: parts =>
        if !Glyph.describe part name.toList then []
        else if !parts.isEmpty then search t directory fuel parts here
        else if directory && !t.isDirectory here then []
        else [here]
    let recursive (part : List Glyph) : Bool := part.contains .anyDirectories
    if !parts.head?.any recursive then named parts
    else
      let after := parts.dropWhile recursive
      if t.isDirectory here then
        search t directory fuel ([.anyDirectories] :: after) here
          ++ if after.isEmpty then [here] else named after
      else named after

end

def sortKey (path : String) : List String :=
  let parts := splitPath path
  let dot := if parts.head? = some "." then ["1"] else []
  let names := parts.filter fun p => p ≠ "" ∧ p ≠ "."
  (if path.startsWith "/" then ["0"] else dot) ++ names.map fun p => if p = ".." then "2" else "3" ++ p

def atMost : List String → List String → Bool
  | [], _ => true
  | _ :: _, [] => false
  | a :: as, b :: bs => if a = b then atMost as bs else a < b

def paths (t : FileTree) (p : PathPattern) : List String :=
  let fuel := 2 * (p.parts.length + 1) * (t.entries.length + 2)
  (search t p.directory fuel p.parts (if p.absolute then "/" else ".")).mergeSort
    fun a b => atMost (sortKey a) (sortKey b)

end PathPattern

inductive InputPathError where
  | pattern (e : PatternError)
  | noMatch (pattern : String)
  deriving DecidableEq

def InputPathError.message : InputPathError → String
  | pattern e => e.message
  | noMatch p => "glob pattern matched no files: " ++ p

def isPattern (text : String) : Bool := text.toList.any "*?[\x7b".toList.contains

/-- The paths that a text stands for: those that match if it is a pattern, itself otherwise. -/
def inputPaths (t : FileTree) (text : String) : Except InputPathError (List String) :=
  if !isPattern text then .ok [text]
  else
    match PathPattern.ofText text with
    | .error e => .error (.pattern e)
    | .ok p =>
      match p.paths t with
      | [] => .error (.noMatch text)
      | found => .ok found

end Autodoc
