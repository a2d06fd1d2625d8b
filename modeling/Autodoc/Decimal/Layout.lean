import Autodoc.Decimal.Shortest

namespace Autodoc.Decimal

structure Layout where
  low : Int
  high : Int
  plusSign : Bool
  exponentWidth : Nat

/-- Positional from `0.00001` to below `10^16`; outside, a signed exponent of at least two digits. -/
def Layout.json : Layout := ⟨-5, 15, true, 2⟩

/-- Positional from `0.0001` to below `10^16`; outside, the bare exponent. -/
def Layout.plain : Layout := ⟨-4, 15, false, 1⟩

def decimal (n : Nat) : List Char := Nat.toDigits 10 n

def padLeft (width : Nat) (cs : List Char) : List Char :=
  List.replicate (width - cs.length) '0' ++ cs

/-- Digits with a point after the first `n` of them, and at least one digit on either side of it. -/
def withPoint (ds : List Char) (n : Int) : List Char :=
  if n ≤ 0 then ['0', '.'] ++ List.replicate (-n).toNat '0' ++ ds
  else if ds.length ≤ n.toNat then ds ++ List.replicate (n.toNat - ds.length) '0' ++ ['.', '0']
  else ds.take n.toNat ++ '.' :: ds.drop n.toNat

def Layout.exponent (l : Layout) (e : Int) : List Char :=
  'e' :: ((if e < 0 then ['-'] else if l.plusSign then ['+'] else [])
    ++ padLeft l.exponentWidth (decimal e.natAbs))

def Layout.digits (l : Layout) (x : Digits) : List Char :=
  let ds := decimal x.digits
  let e := x.exponent + ds.length - 1
  if x.digits = 0 then ['0', '.', '0']
  else if l.low ≤ e ∧ e ≤ l.high then withPoint ds (e + 1)
  else
    match ds with
    | [d] => d :: l.exponent e
    | d :: rest => d :: '.' :: rest ++ l.exponent e
    | [] => []

def Layout.render (l : Layout) (x : Float) : String :=
  let b := Binary.ofFloat x
  String.ofList ((if b.negative then ['-'] else []) ++ l.digits b.shortest)

end Autodoc.Decimal
