import Autodoc.Filter.Datum

namespace Autodoc.Filter

inductive Arithmetic where
  | add
  | sub
  | mul
  | div
  | rem

def Arithmetic.sign : Arithmetic → String
  | add => "+"
  | sub => "-"
  | mul => "*"
  | div => "/"
  | rem => "%"

namespace Datum

def cannotCalculate (a : Datum) (op : Arithmetic) (b : Datum) : Datum :=
  .text ("cannot calculate " ++ a.shown ++ " " ++ op.sign ++ " " ++ b.shown)

def cannotUse (a : Datum) (as : String) : Datum :=
  .text ("cannot use " ++ a.shown ++ " as " ++ as)

def union (as bs : List (String × Datum)) : List (String × Datum) :=
  bs.foldl (fun ms (k, v) => putEntry k v ms) as

mutual

/-- What stands where `old` stood: two objects are merged member by member. -/
def mergeOver (old : Datum) : Datum → Datum
  | .object ms =>
    match old with
    | .object os => .object (mergeMembers os ms)
    | _ => .object ms
  | v => v

def mergeMembers (os : List (String × Datum)) : List (String × Datum) → List (String × Datum)
  | [] => os
  | (k, v) :: ms =>
    let v' :=
      match valueAt? k os with
      | some old => mergeOver old v
      | none => v
    mergeMembers (putEntry k v' os) ms

end

end Datum

/-- The parts of a text between the places where `sep` stands; its characters if `sep` is empty. -/
def splitText (s sep : List Char) : List (List Char) :=
  match sep with
  | [] => s.map ([·])
  | _ :: _ => go sep [] s.length s
where
  go (sep : List Char) (acc : List Char) : Nat → List Char → List (List Char)
    | _, [] => [acc.reverse]
    | 0, _ => [acc.reverse]
    | n + 1, c :: r =>
      if sep.isPrefixOf (c :: r) then acc.reverse :: go sep [] n ((c :: r).drop sep.length)
      else go sep (c :: acc) n r

/-- The remainder of a division toward zero, exact; it has the sign of the dividend. -/
def floatRemainder (x y : Float) : Float :=
  if x.isNaN || y.isNaN || x.isInf || y == 0.0 then 0.0 / 0.0
  else if y.isInf then x
  else
    let a := Decimal.Binary.ofFloat x
    let b := Decimal.Binary.ofFloat y
    let q := min a.q b.q
    let m := (a.m * Decimal.twoTo (a.q - q).toNat) % (b.m * Decimal.twoTo (b.q - q).toNat)
    let r := (Float.ofNat m).scaleB q
    if a.negative then -r else r

namespace Arithmetic

def onInts (op : Arithmetic) (m n : Int) : Option Datum :=
  match op with
  | add => some (.ofInt (m + n) (floatOfInt m + floatOfInt n))
  | sub => some (.ofInt (m - n) (floatOfInt m - floatOfInt n))
  | mul => some (.ofInt (m * n) (floatOfInt m * floatOfInt n))
  | div => some (.float (floatOfInt m / floatOfInt n))
  | rem => if n = 0 then none else some (.int (m.tmod n))

def onFloats (op : Arithmetic) (x y : Float) : Float :=
  match op with
  | add => x + y
  | sub => x - y
  | mul => x * y
  | div => x / y
  | rem => floatRemainder x y

def replicateText (s : String) (n : Int) : Datum :=
  if n ≤ 0 then .null else .text (String.join (List.replicate n.toNat s))

def apply (op : Arithmetic) (a b : Datum) : Except Datum Datum :=
  match op, a, b with
  | add, .null, b => .ok b
  | add, a, .null => .ok a
  | add, .text s, .text t => .ok (.text (s ++ t))
  | add, .list as, .list bs => .ok (.list (as ++ bs))
  | add, .object as, .object bs => .ok (.object (Datum.union as bs))
  | sub, .list as, .list bs => .ok (.list (as.filter fun a => !bs.any a.same))
  | mul, .text s, .int n | mul, .int n, .text s => .ok (replicateText s n)
  | mul, .object as, .object bs => .ok (.object (Datum.mergeMembers as bs))
  | div, .text s, .text t =>
    .ok (.list ((splitText s.toList t.toList).map fun cs => .text (String.ofList cs)))
  | op, .int m, .int n =>
    match op.onInts m n with
    | some d => .ok d
    | none => .error (Datum.cannotCalculate (.int m) op (.int n))
  | op, a, b =>
    match a.float?, b.float? with
    | some x, some y => .ok (.float (op.onFloats x y))
    | _, _ => .error (Datum.cannotCalculate a op b)

end Arithmetic

def Datum.negate (d : Datum) : Except Datum Datum :=
  match d with
  | .int n => .ok (.ofInt (-n) (-floatOfInt n))
  | d =>
    match d.float? with
    | some x => .ok (.float (-x))
    | none => .error (d.cannotUse "number")

inductive Comparison where
  | eq
  | ne
  | lt
  | le
  | gt
  | ge

def Comparison.apply (c : Comparison) (a b : Datum) : Bool :=
  let o := Datum.compare a b
  match c with
  | eq => o == .eq
  | ne => o != .eq
  | lt => o == .lt
  | le => o != .gt
  | gt => o == .gt
  | ge => o != .lt

end Autodoc.Filter
