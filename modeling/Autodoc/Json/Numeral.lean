import Autodoc.Json.Scan

namespace Autodoc.Json

def isDigit (c : Char) : Bool := '0' ≤ c && c ≤ '9'

def digitValue (c : Char) : Nat := c.toNat - '0'.toNat

def digitRun (s : List Char) : List Char × List Char := s.span isDigit

/-- Appends digits to a significand while it stays below `2^64`; returns the digits left over. -/
def absorb (sig : Nat) : List Char → Nat × List Char
  | [] => (sig, [])
  | d :: ds =>
    let n := sig * 10 + digitValue d
    if n ≤ 0xFFFFFFFFFFFFFFFF then absorb n ds else (sig, d :: ds)

def powerOfTen (k : Nat) : Float := Float.ofScientific 1 false k

/-- Divides by `10^k`, by no more than `10^308` at a time. -/
def scaleDown (x : Float) (k : Nat) : Float :=
  if k ≤ 308 then x / powerOfTen k
  else if x == 0 then x
  else scaleDown (x / powerOfTen 308) (k - 308)
termination_by k

def scaled? (negative : Bool) (sig : Nat) (e : Int) : Option Float :=
  let x := sig.toUInt64.toFloat
  let y? : Option Float :=
    if e < 0 then some (scaleDown x e.natAbs)
    else if 308 < e then (if x == 0 then some x else none)
    else
      let y := x * powerOfTen e.natAbs
      if y.isInf then none else some y
  y?.map fun y => if negative then -y else y

def scanScaled (negative : Bool) (sig : Nat) (e : Int) (s : List Char) : Scan Number :=
  match scaled? negative sig e with
  | some x => .ok (.float x, s)
  | none => .error (.here .numberOutOfRange s)

/-- An exponent below `2^31`, or what is left after the digit that takes it over. -/
def exponentValue (e : Nat) : List Char → Except (List Char) Nat
  | [] => .ok e
  | d :: ds =>
    let n := e * 10 + digitValue d
    if n ≤ 0x7FFFFFFF then exponentValue n ds else .error ds

def scanExponent (negative : Bool) (sig : Nat) (e : Int) (s : List Char) : Scan Number :=
  let (down, s) :=
    match s with
    | '+' :: r => (false, r)
    | '-' :: r => (true, r)
    | r => (false, r)
  match s with
  | [] => .error (.here .endInValue [])
  | c :: r =>
    if isDigit c then
      let (ds, r') := digitRun r
      match exponentValue (digitValue c) ds with
      | .ok n => scanScaled negative sig (if down then e - n else e + n) r'
      | .error left =>
        if sig ≠ 0 ∧ ¬ down then .error (.here .numberOutOfRange (left ++ r'))
        else .ok (.float (if negative then -0.0 else 0.0), r')
    else .error (.next .invalidNumber (c :: r))

def scanFraction (negative : Bool) (sig : Nat) (e : Int) (s : List Char) : Scan Number :=
  let (ds, r) := digitRun s
  if ds.isEmpty then
    .error (if r.isEmpty then .here .endInValue [] else .next .invalidNumber r)
  else
    let (sig, left) := absorb sig ds
    let e := e - (ds.length - left.length : Nat)
    match r with
    | 'e' :: r' | 'E' :: r' => scanExponent negative sig e r'
    | _ => scanScaled negative sig e r

/-- A whole number, unless it is below `-2^63` or minus zero. -/
def wholeNumber (negative : Bool) (sig : Nat) : Number :=
  if negative then
    if 0 < sig ∧ sig ≤ 0x8000000000000000 then .int (-sig) else .float (-sig.toUInt64.toFloat)
  else .int sig

def scanNumber (negative : Bool) (s : List Char) : Scan Number :=
  match s with
  | [] => .error (.here .endInValue [])
  | c :: r =>
    if !isDigit c then .error (.next .invalidNumber s)
    else if c = '0' ∧ (r.head?.any isDigit) then .error (.next .invalidNumber r)
    else
      let (ds, r) := digitRun s
      let (sig, left) := absorb 0 ds
      match r with
      | '.' :: r' => scanFraction negative sig left.length r'
      | 'e' :: r' | 'E' :: r' => scanExponent negative sig left.length r'
      | _ =>
        if left.isEmpty then .ok (wholeNumber negative sig, r)
        else scanScaled negative sig left.length r

end Autodoc.Json
