import Autodoc.Filter.Outputs
import Autodoc.Filter.Arithmetic

namespace Autodoc.Filter

namespace Datum

def cannotIndex (d key : Datum) : Datum :=
  .text ("cannot index " ++ d.shown ++ " with " ++ key.shown)

def notIterable (d : Datum) : Datum := d.cannotUse "iterable (array or object)"

def wordOf : Datum → Except Datum Int
  | .int n => .ok n
  | d => .error (d.cannotUse "integer")

def boundOf : Datum → Except Datum (Option Int)
  | .null => .ok none
  | d => d.wordOf.map some

end Datum

def placeOf? (i : Int) (length : Nat) : Option Nat :=
  let i := if i < 0 then length + i else i
  if 0 ≤ i ∧ i < length then some i.toNat else none

def boundWithin (i : Option Int) (length other : Nat) : Nat :=
  match i with
  | none => other
  | some i => if i < 0 then (length + i).toNat else min i.toNat length

def sliceWithin (start stop : Option Int) (length : Nat) : Nat × Nat :=
  let a := boundWithin start length 0
  (a, boundWithin stop length length - a)

def sliceList (start stop : Option Int) (xs : List α) : List α :=
  let (skipped, taken) := sliceWithin start stop xs.length
  (xs.drop skipped).take taken

/-- The key that stands for a slice. -/
def sliceKey (start stop : Option Datum) : Datum :=
  .object ((start.toList.map fun d => ("start", d)) ++ (stop.toList.map fun d => ("end", d)))

namespace Datum

def slice (d : Datum) (start stop : Datum) : Except Datum Datum := do
  match d with
  | .list vs => return .list (sliceList (← start.boundOf) (← stop.boundOf) vs)
  | .text s => return .text (String.ofList (sliceList (← start.boundOf) (← stop.boundOf) s.toList))
  | d => throw (d.cannotUse "rangeable (array or string)")

def boundsOf (ms : List (String × Datum)) : Datum × Datum :=
  ((valueAt? "start" ms).getD .null, (valueAt? "end" ms).getD .null)

def index (d key : Datum) : Except Datum Datum :=
  match d, key with
  | .null, _ => .ok .null
  | .list vs, .int i => .ok (((placeOf? i vs.length).bind (vs[·]?)).getD .null)
  | .object ms, .text k => .ok ((valueAt? k ms).getD .null)
  | .list vs, .object ms => (Datum.list vs).slice (boundsOf ms).1 (boundsOf ms).2
  | .text s, .object ms => (Datum.text s).slice (boundsOf ms).1 (boundsOf ms).2
  | d, key => .error (d.cannotIndex key)

def parts : Datum → Except Datum (List (Datum × Datum))
  | .list vs => .ok (vs.zipIdx.map fun (v, i) => (.int i, v))
  | .object ms => .ok (ms.map fun (k, v) => (.text k, v))
  | d => .error d.notIterable

end Datum

abbrev Change := Datum → Results Datum

def orFail (optional : Bool) (d e : Datum) : Except Raised Datum :=
  if optional then .ok d else .error (.error e)

/-- Without the member of a key; the last member takes its place. -/
def removeMember (k : String) (ms : List (String × Datum)) : List (String × Datum) :=
  match ms.getLast? with
  | none => []
  | some (k', v') =>
    if k' = k then ms.dropLast
    else ms.dropLast.map fun m => if m.1 = k then (k', v') else m

namespace Datum

def replaceMember (ms : List (String × Datum)) (k : String) (change : Change) : Except Raised Datum := do
  match valueAt? k ms with
  | some v =>
    match ← (change v).first? with
    | some v => return .object (putEntry k v ms)
    | none => return .object (removeMember k ms)
  | none =>
    match ← (change .null).first? with
    | some v => return .object (putEntry k v ms)
    | none => return .object ms

def replaceItem (vs : List Datum) (i : Nat) (change : Change) : Except Raised Datum := do
  match ← (change (vs[i]?.getD .null)).first? with
  | some v => return .list (vs.set i v)
  | none => return .list (vs.eraseIdx i)

def replaceSlice (d start stop : Datum) (optional : Bool) (change : Change) : Except Raised Datum :=
  match d with
  | .list vs =>
    match start.boundOf, stop.boundOf with
    | .ok a, .ok b => do
      let (skipped, taken) := sliceWithin a b vs.length
      match ← (change (.list ((vs.drop skipped).take taken))).first? with
      | some (.list new) => return .list (vs.take skipped ++ new ++ vs.drop (skipped + taken))
      | some new => throw (.error (new.cannotUse "array"))
      | none => return .list (vs.take skipped ++ vs.drop (skipped + taken))
    | .error e, _ | _, .error e => orFail optional d e
  | d => orFail optional d (d.cannotUse "array")

def replaceAt (d key : Datum) (optional : Bool) (change : Change) : Except Raised Datum :=
  match d, key with
  | .object ms, .text k => replaceMember ms k change
  | .list vs, .int i =>
    match placeOf? i vs.length with
    | some i => replaceItem vs i change
    | none => orFail optional d (.text ("index " ++ key.shown ++ " out of bounds"))
  | .list _, .object ms | .text _, .object ms =>
    replaceSlice d (boundsOf ms).1 (boundsOf ms).2 optional change
  | .list _, key => orFail optional d (key.cannotUse "integer")
  | d, key => orFail optional d (d.cannotIndex key)

/-- The members that a change makes of members, at most one of each. -/
def replaceMembers (change : Change) : List (String × Datum) → Except Raised (List (String × Datum))
  | [] => .ok []
  | (k, v) :: ms => do
    let v ← (change v).first?
    let rest ← replaceMembers change ms
    return (v.toList.map fun v => (k, v)) ++ rest

def replaceParts (d : Datum) (optional : Bool) (change : Change) : Except Raised Datum :=
  match d with
  | .list vs => (((Outputs.ofList vs).flatMap change).collect []).map .list
  | .object ms => (replaceMembers change ms).map .object
  | d => orFail optional d d.notIterable

/-- The value with what stands at the end of a path replaced. -/
def replaceAlong (change : Change) : List Datum → Change
  | [], d => change d
  | key :: path, d => Outputs.one (d.replaceAt key false (replaceAlong change path))

def along : List Datum → Datum → Except Datum Datum
  | [], d => .ok d
  | key :: path, d => d.index key >>= along path

end Datum

end Autodoc.Filter
