import Autodoc.Json.Printer
import Autodoc.Json.Numeral

namespace Autodoc.Filter

inductive Datum where
  | null
  | bool (b : Bool)
  | int (n : Int)
  | float (x : Float)
  | numeral (written : String)
  | text (s : String)
  | list (items : List Datum)
  | object (members : List (String × Datum))

instance : Inhabited Datum := ⟨.null⟩

def fitsWord (n : Int) : Bool := -0x8000000000000000 ≤ n && n ≤ 0x7FFFFFFFFFFFFFFF

namespace Datum

def ofNumber (n : Json.Number) : Datum :=
  match n with
  | .int i => if fitsWord i then .int i else .numeral (String.ofList (Json.printNumber (.int i)))
  | .float x => .numeral (String.ofList (Json.printNumber (.float x)))

mutual

def ofJson : Json.Value → Datum
  | .null => .null
  | .bool b => .bool b
  | .number n => .ofNumber n
  | .text s => .text s
  | .list vs => .list (ofItems vs)
  | .object ms => .object (ofMembers ms)

def ofItems : List Json.Value → List Datum
  | [] => []
  | v :: vs => ofJson v :: ofItems vs

def ofMembers : List (String × Json.Value) → List (String × Datum)
  | [] => []
  | (k, v) :: ms => (k, ofJson v) :: ofMembers ms

end

/-- Numbers that are not finite have no text. -/
def printFloat (x : Float) : List Char :=
  if x.isFinite then (Decimal.Layout.plain.render x).toList else "null".toList

mutual

def print : Datum → List Char
  | .null => "null".toList
  | .bool true => "true".toList
  | .bool false => "false".toList
  | .int n => Json.printInt n
  | .float x => printFloat x
  | .numeral w => w.toList
  | .text s => Json.printText s
  | .list [] => ['[', ']']
  | .list (v :: vs) => '[' :: (print v ++ printItems vs)
  | .object [] => ['{', '}']
  | .object ((k, v) :: ms) => '{' :: (Json.printText k ++ ':' :: (print v ++ printMembers ms))

def printItems : List Datum → List Char
  | [] => [']']
  | v :: vs => ',' :: (print v ++ printItems vs)

def printMembers : List (String × Datum) → List Char
  | [] => ['}']
  | (k, v) :: ms => ',' :: (Json.printText k ++ ':' :: (print v ++ printMembers ms))

end

def shown (d : Datum) : String := String.ofList d.print

/-- All but null and false hold. -/
def holds : Datum → Bool
  | .null => false
  | .bool b => b
  | _ => true

def typeName : Datum → String
  | .null => "null"
  | .bool _ => "boolean"
  | .int _ | .float _ | .numeral _ => "number"
  | .text _ => "string"
  | .list _ => "array"
  | .object _ => "object"

end Datum

def nearestFloat (digits : Nat) (e : Int) : Float :=
  let size : Int := (Decimal.decimal digits).length + e
  if digits = 0 ∨ size < -400 then 0.0
  else if 400 < size then 1.0 / 0.0
  else if e < 0 then Float.ofScientific digits true e.natAbs
  else Float.ofScientific digits false e.natAbs

def digitsValue (ds : List Char) : Nat := ds.foldl (fun n d => 10 * n + Json.digitValue d) 0

def exponentOf : List Char → Int
  | '-' :: ds => -(digitsValue ds : Int)
  | '+' :: ds => digitsValue ds
  | ds => digitsValue ds

def unsignedValue (cs : List Char) : Float :=
  let (whole, r) := cs.span Json.isDigit
  let (fraction, r) :=
    match r with
    | '.' :: r => r.span Json.isDigit
    | r => ([], r)
  nearestFloat (digitsValue (whole ++ fraction)) (exponentOf r.tail - fraction.length)

def numeralValue (written : String) : Float :=
  match written.toList with
  | '-' :: cs => -unsignedValue cs
  | cs => unsignedValue cs

def floatOfInt (n : Int) : Float := Float.ofInt n

namespace Datum

/-- A whole number, in floating point if it needs more than 64 bits. -/
def ofInt (n : Int) (wide : Float) : Datum := if fitsWord n then .int n else .float wide

def ofNumeral (written : String) : Datum :=
  match written.toInt? with
  | some n => if fitsWord n then .int n else .numeral written
  | none => .numeral written

def float? : Datum → Option Float
  | .int n => some (floatOfInt n)
  | .float x => some x
  | .numeral w => some (numeralValue w)
  | _ => none

end Datum

/-- Zeros are equal whatever their sign, and what is not a number is below everything, itself included. -/
def compareFloat (x y : Float) : Ordering :=
  if x == y then .eq else if x.isNaN then .lt else if y.isNaN then .gt
  else if x < y then .lt else .gt

namespace Datum

def rank : Datum → Nat
  | .null => 0
  | .bool false => 1
  | .bool true => 2
  | .int _ | .float _ | .numeral _ => 3
  | .text _ => 4
  | .list _ => 5
  | .object _ => 6

mutual

def sorted : Datum → Datum
  | .list vs => .list (sortedItems vs)
  | .object ms => .object ((sortedMembers ms).mergeSort fun a b => a.1 ≤ b.1)
  | d => d

def sortedItems : List Datum → List Datum
  | [] => []
  | v :: vs => sorted v :: sortedItems vs

def sortedMembers : List (String × Datum) → List (String × Datum)
  | [] => []
  | (k, v) :: ms => (k, sorted v) :: sortedMembers ms

end

def compareKeys : List (String × Datum) → List (String × Datum) → Ordering
  | [], [] => .eq
  | [], _ :: _ => .lt
  | _ :: _, [] => .gt
  | a :: as, b :: bs => (Ord.compare a.1 b.1).then (compareKeys as bs)

mutual

def compareSorted : Datum → Datum → Ordering
  | .int m, .int n => Ord.compare m n
  | .text s, .text t => Ord.compare s t
  | .list as, .list bs => compareItems as bs
  | .object as, .object bs => (compareKeys as bs).then (compareMembers as bs)
  | a, b =>
    match a.float?, b.float? with
    | some x, some y => compareFloat x y
    | _, _ => Ord.compare a.rank b.rank

def compareItems : List Datum → List Datum → Ordering
  | [], [] => .eq
  | [], _ :: _ => .lt
  | _ :: _, [] => .gt
  | a :: as, b :: bs => (compareSorted a b).then (compareItems as bs)

def compareMembers : List (String × Datum) → List (String × Datum) → Ordering
  | [], [] => .eq
  | [], _ :: _ => .lt
  | _ :: _, [] => .gt
  | (_, a) :: as, (_, b) :: bs => (compareSorted a b).then (compareMembers as bs)

end

/-- Null, false, true, numbers, texts, lists, objects; objects by their keys first and then by their
values, both in the order of the keys. -/
def compare (a b : Datum) : Ordering := compareSorted a.sorted b.sorted

def same (a b : Datum) : Bool := compare a b == .eq

def atMost (a b : Datum) : Bool := compare a b != .gt

end Datum

end Autodoc.Filter
