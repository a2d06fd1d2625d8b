import Autodoc.Filter.Access
import Autodoc.Filter.Format
import Autodoc.Json.Reader
import Autodoc.Text.Space

namespace Autodoc.Filter

namespace Datum

def length : Datum → Except Datum Datum
  | .null => .ok (.int 0)
  | .bool b => .error (.text ((Datum.bool b).shown ++ " has no length"))
  | .text s => .ok (.int s.length)
  | .list vs => .ok (.int vs.length)
  | .object ms => .ok (.int ms.length)
  | .int n => .ok (.ofInt n.natAbs (floatOfInt n.natAbs))
  | .float x => .ok (.float x.abs)
  | .numeral w => .ok (.float (numeralValue w).abs)

def keys (d : Datum) : Except Datum Datum := d.parts.map fun ps => .list (ps.map Prod.fst)

def textOf : Datum → Except Datum String
  | .text s => .ok s
  | d => .error (d.cannotUse "string")

def listOf : Datum → Except Datum (List Datum)
  | .list vs => .ok vs
  | d => .error (d.cannotUse "array")

def floatOf (d : Datum) : Except Datum Float :=
  match d.float? with
  | some x => .ok x
  | none => .error (d.cannotUse "number")

def onText (f : List Char → List Char) (d : Datum) : Except Datum Datum :=
  d.textOf.map fun s => .text (String.ofList (f s.toList))

def trimStart (cs : List Char) : List Char := cs.dropWhile Text.isSpace

def trimEnd (cs : List Char) : List Char := (trimStart cs.reverse).reverse

def ofJsonText (s : String) : Except Datum Datum :=
  match Json.Value.ofTextWithin (s.length + 2) s with
  | .ok (.number _) => .ok (.ofNumeral (String.ofList (trimEnd (trimStart s.toList))))
  | .ok v => .ok (.ofJson v)
  | .error e => .error (.text ("cannot parse " ++ s ++ " as JSON: " ++ e.message))

/-- Rounding keeps whole numbers and gives whole numbers, cut to 64 bits. -/
def rounded (f : Float → Float) (d : Datum) : Except Datum Datum :=
  match d with
  | .int n => .ok (.int n)
  | d => d.floatOf.map fun x => .int (f x).toInt64.toInt

def codePoint? : Datum → Option Char
  | .int n => if 0 ≤ n ∧ Nat.isValidChar n.toNat then some (Char.ofNat n.toNat) else none
  | _ => none

def implode (d : Datum) : Except Datum Datum := do
  let vs ← d.listOf
  match vs.mapM codePoint? with
  | some cs => return .text (String.ofList cs)
  | none => throw (.text ("cannot use " ++ d.shown ++ " as codepoints"))

def has (d key : Datum) : Except Datum Bool :=
  match d, key with
  | .list vs, .int i => if 0 ≤ i then .ok (i < vs.length) else .error (d.cannotIndex key)
  | .object ms, .text k => .ok (valueAt? k ms).isSome
  | d, key => .error (d.cannotIndex key)

def holdsText (part : List Char) : List Char → Bool
  | [] => part.isEmpty
  | c :: r => part.isPrefixOf (c :: r) || holdsText part r

mutual

/-- Texts hold their parts, lists what some item holds, objects what their members hold; anything else holds
what is equal to it. -/
def contains (d : Datum) : Datum → Bool
  | .text s =>
    match d with
    | .text whole => holdsText s.toList whole.toList
    | _ => false
  | .list vs =>
    match d with
    | .list ds => containsItems ds vs
    | _ => false
  | .object ms =>
    match d with
    | .object ds => containsMembers ds ms
    | _ => false
  | e => d.same e

def containsItems (ds : List Datum) : List Datum → Bool
  | [] => true
  | v :: vs => ds.any (fun d => contains d v) && containsItems ds vs

def containsMembers (ds : List (String × Datum)) : List (String × Datum) → Bool
  | [] => true
  | (k, v) :: ms =>
    (match valueAt? k ds with
      | some d => contains d v
      | none => false) && containsMembers ds ms

end

/-- Where a list begins in another one, counted from `i`. -/
def placesFrom (same : α → α → Bool) (part : List α) (i : Nat) : List α → List Nat
  | [] => []
  | a :: as =>
    let here := part.length ≤ as.length + 1 && (part.zip (a :: as)).all fun (x, y) => same x y
    (if here then [i] else []) ++ placesFrom same part (i + 1) as

def indices (d part : Datum) : Except Datum Datum :=
  let places (ns : List Nat) : Except Datum Datum := .ok (.list (ns.map fun (n : Nat) => .int n))
  match d, part with
  | .text s, .text t =>
    places (if t.isEmpty then [] else placesFrom (· == ·) t.toList 0 s.toList)
  | .list vs, .list ws => places (if ws.isEmpty then [] else placesFrom same ws 0 vs)
  | .list vs, v => places (placesFrom same [v] 0 vs)
  | d, part => .error (d.cannotIndex part)

def withoutStart (d part : Datum) : Datum :=
  match d, part with
  | .text s, .text t =>
    if t.toList.isPrefixOf s.toList then .text (String.ofList (s.toList.drop t.length)) else d
  | d, _ => d

def withoutEnd (d part : Datum) : Datum :=
  match d, part with
  | .text s, .text t =>
    if t.toList.isSuffixOf s.toList then .text (String.ofList (s.toList.take (s.length - t.length)))
    else d
  | d, _ => d

end Datum

def numberFunctions : List (String × (Float → Float)) :=
  [("sqrt", Float.sqrt), ("fabs", Float.abs), ("exp", Float.exp), ("exp2", Float.exp2),
    ("exp10", fun x => Float.pow 10.0 x), ("log", Float.log), ("log2", Float.log2),
    ("log10", Float.log10), ("sin", Float.sin), ("cos", Float.cos), ("tan", Float.tan),
    ("asin", Float.asin), ("acos", Float.acos), ("atan", Float.atan), ("sinh", Float.sinh),
    ("cosh", Float.cosh), ("tanh", Float.tanh), ("cbrt", Float.cbrt),
    ("trunc", fun x => if x < 0.0 then x.ceil else x.floor)]

def inputFunctions : List (String × (Datum → Except Datum Datum)) :=
  [("length", Datum.length),
    ("utf8bytelength", fun d => d.textOf.map fun s => .int s.utf8ByteSize),
    ("keys_unsorted", Datum.keys),
    ("type", fun d => .ok (.text d.typeName)),
    ("tojson", fun d => .ok (.text d.shown)),
    ("tostring", fun d => .ok (.text d.asText)),
    ("fromjson", fun d => d.textOf.bind Datum.ofJsonText),
    ("ascii_downcase", Datum.onText fun cs => cs.map Char.toLower),
    ("ascii_upcase", Datum.onText fun cs => cs.map Char.toUpper),
    ("trim", Datum.onText fun cs => Datum.trimEnd (Datum.trimStart cs)),
    ("ltrim", Datum.onText Datum.trimStart),
    ("rtrim", Datum.onText Datum.trimEnd),
    ("explode", fun d => d.textOf.map fun s => .list (s.toList.map fun c => .int c.toNat)),
    ("implode", Datum.implode),
    ("reverse", fun d => d.listOf.map fun vs => .list vs.reverse),
    ("floor", Datum.rounded Float.floor),
    ("round", Datum.rounded Float.round),
    ("ceil", Datum.rounded Float.ceil)]
    ++ numberFunctions.map fun (name, f) => (name, fun d => d.floatOf.map fun x => .float (f x))

def twoNumberFunctions : List (String × (Float → Float → Float)) :=
  [("pow", Float.pow), ("atan2", Float.atan2), ("fmod", floatRemainder),
    ("fmin", fun x y => if x ≤ y || y.isNaN then x else y),
    ("fmax", fun x y => if y ≤ x || y.isNaN then x else y)]

def argumentFunctions : List (String × (Datum → Datum → Except Datum Datum)) :=
  [("has", fun d key => (d.has key).map .bool),
    ("contains", fun d e => .ok (.bool (d.contains e))),
    ("startswith", fun d e => do
      return .bool ((← e.textOf).toList.isPrefixOf (← d.textOf).toList)),
    ("endswith", fun d e => do
      return .bool ((← e.textOf).toList.isSuffixOf (← d.textOf).toList)),
    ("ltrimstr", fun d e => .ok (d.withoutStart e)),
    ("rtrimstr", fun d e => .ok (d.withoutEnd e)),
    ("split", fun d e => do
      let parts := splitText (← d.textOf).toList (← e.textOf).toList
      return .list (parts.map fun cs => .text (String.ofList cs))),
    ("indices", Datum.indices)]

end Autodoc.Filter
