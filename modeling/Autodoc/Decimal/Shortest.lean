namespace Autodoc.Decimal

def twoTo (k : Nat) : Nat := Nat.pow 2 k

def tenTo (k : Nat) : Nat := Nat.pow 10 k

/-- A positive decimal `digits · 10^exponent`, without trailing zeros unless it is zero. -/
structure Digits where
  digits : Nat
  exponent : Int
  deriving DecidableEq

/-- The positive number `num / den` with the ends of its rounding interval over the same denominator. -/
structure Interval where
  low : Nat
  num : Nat
  high : Nat
  den : Nat
  closed : Bool

/-- The reals that round to `m · 2^q`. Below a power of two the neighbour is half as far. -/
def Interval.ofBinary (m : Nat) (q : Int) (narrow : Bool) : Interval :=
  let up := twoTo (q - 2).toNat
  { low := (4 * m - if narrow then 1 else 2) * up
    num := 4 * m * up
    high := (4 * m + 2) * up
    den := twoTo (2 - q).toNat
    closed := m % 2 == 0 }

def Interval.holds (i : Interval) (d : Nat) (k : Int) : Bool :=
  let x := d * tenTo k.toNat * i.den
  let s := tenTo (-k).toNat
  if i.closed then i.low * s ≤ x && x ≤ i.high * s else i.low * s < x && x < i.high * s

/-- The points of the grid `10^k` just below and above the number, the nearer one first; a tie goes to the
even point. -/
def Interval.neighbours (i : Interval) (k : Int) : Nat × Nat :=
  let n := i.num * tenTo (-k).toNat
  let s := tenTo k.toNat * i.den
  let d := n / s
  let r := n % s
  if 2 * r < s || (2 * r == s && d % 2 == 0) then (d, d + 1) else (d + 1, d)

def Interval.onGrid? (i : Interval) (k : Int) : Option Nat :=
  let (near, far) := i.neighbours k
  if i.holds near k then some near else if i.holds far k then some far else none

def Interval.search (i : Interval) : Nat → Int → Digits
  | 0, k => ⟨(i.neighbours k).1, k⟩
  | tries + 1, k =>
    match i.onGrid? k with
    | some d => ⟨d, k⟩
    | none => i.search tries (k - 1)

def Digits.trim : Nat → Digits → Digits
  | 0, x => x
  | n + 1, x =>
    if x.digits ≠ 0 ∧ x.digits % 10 = 0 then trim n ⟨x.digits / 10, x.exponent + 1⟩ else x

/-- The least `k` with `num / den < 10^k`, found from the lengths in binary. -/
def magnitude (num den : Nat) : Int :=
  let guess : Int := (((num.log2 : Int) - den.log2) * 30103).fdiv 100000
  let below (k : Int) : Bool := num * tenTo (-k).toNat < tenTo k.toNat * den
  if below (guess - 1) then guess - 1
  else if below guess then guess
  else if below (guess + 1) then guess + 1
  else guess + 2

/-- The shortest decimal that reads back as `m · 2^q`. -/
def shortest (m : Nat) (q : Int) (narrow : Bool) : Digits :=
  if m = 0 then ⟨0, 0⟩
  else
    let i := Interval.ofBinary m q narrow
    (i.search 18 (magnitude i.num i.den)).trim 20

structure Binary where
  negative : Bool
  m : Nat
  q : Int
  narrow : Bool

def Binary.ofFloat (x : Float) : Binary :=
  let bits := x.toBits.toNat
  let frac : Nat := bits % twoTo 52
  let biased : Nat := bits / twoTo 52 % twoTo 11
  let negative := bits / twoTo 63 == 1
  if biased = 0 then ⟨negative, frac, -1074, false⟩
  else ⟨negative, frac + twoTo 52, biased - 1075, frac == 0 && 1 < biased⟩

def Binary.shortest (b : Binary) : Digits := Decimal.shortest b.m b.q b.narrow

end Autodoc.Decimal
