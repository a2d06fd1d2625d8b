import Autodoc.Json.Schema

namespace Autodoc.Json

abbrev Decoded (α : Type) := Except DecodeError α

def Decoded.fail (p : Problem) : Decoded α := .error ⟨[], p, none⟩

def Decoded.under (s : Segment) (x : Decoded α) : Decoded α := x.mapError (·.under s)

def decodeItems (read : Value → Decoded α) : Nat → List Value → Decoded (List α)
  | _, [] => .ok []
  | i, v :: vs => do
    let x ← Decoded.under (.index i) (read v)
    let xs ← decodeItems read (i + 1) vs
    .ok (x :: xs)

def decodeEntries (read : Value → Decoded α) : Table α → List (String × Value) → Decoded (Table α)
  | t, [] => .ok t
  | t, (k, v) :: rest => do
    let x ← Decoded.under (.key k) (read v)
    decodeEntries read (t.insert k x) rest

def decodeMembers (read : String → Value → Option (Decoded (α → α))) :
    α → List String → List (String × Value) → Decoded (α × List String)
  | x, given, [] => .ok (x, given)
  | x, given, (k, v) :: rest =>
    match read k v with
    | none => decodeMembers read x given rest
    | some d => do
      let set ← Decoded.under (.key k) d
      decodeMembers read (set x) (k :: given) rest

def decodeWord : Value → Decoded UInt32
  | .number (.int n) =>
    if 0 ≤ n ∧ n ≤ 0xFFFFFFFF then .ok n.toNat.toUInt32 else .fail (.invalidValue (.int n) .word)
  | v => .fail (.invalidType (.ofValue v) .word)

def decodeVariant (variants : List (String × α)) (name : String) : Decoded α :=
  match variants.lookup name with
  | some x => .ok x
  | none => .fail (.unknownVariant name (variants.map Prod.fst))

def decodeChoice (variants : List (String × α)) : Value → Decoded α
  | .text name => decodeVariant variants name
  | .object [(name, v)] => do
    let x ← decodeVariant variants name
    match v with
    | .null => .ok x
    | v => Decoded.under (.key name) (.fail (.invalidType (.ofValue v) .null))
  | .object _ => .fail (.invalidValue .object .singleEntry)
  | v => .fail (.invalidType (.ofValue v) .textOrTable)

mutual

def Schema.ofValue : Schema α → Value → Decoded α
  | .text, .text s => .ok s
  | .text, v => .fail (.invalidType (.ofValue v) .text)
  | .bool, .bool b => .ok b
  | .bool, v => .fail (.invalidType (.ofValue v) .bool)
  | .word, v => decodeWord v
  | .nullable _, .null => .ok none
  | .nullable s, v => (s.ofValue v).map some
  | .list s, .list vs => decodeItems s.ofValue 0 vs
  | .list _, v => .fail (.invalidType (.ofValue v) .list)
  | .table s, .object ms => decodeEntries s.ofValue {} ms
  | .table _, v => .fail (.invalidType (.ofValue v) .table)
  | .choice variants, v => decodeChoice variants v
  | .record name blank slots, .list vs => slots.ofItems name slots.size vs.length 0 blank vs
  | .record _ blank slots, .object ms => do
    let (x, given) ← decodeMembers slots.ofMember blank [] ms
    match slots.missing? given with
    | none => .ok x
    | some name => .fail (.missingField name)
  | .record name _ _, v => .fail (.invalidType (.ofValue v) (.record name))

def Slots.ofMember : Slots α → String → Value → Option (Decoded (α → α))
  | .nil, _, _ => none
  | .cons name _ s set rest, k, v =>
    if name = k then some ((s.ofValue v).map set) else rest.ofMember k v

/-- Fields in order. Those that the list is too short for must be ones that may be left out. -/
def Slots.ofItems : Slots α → String → Nat → Nat → Nat → α → List Value → Decoded α
  | .nil, _, _, _, _, x, [] => .ok x
  | .nil, _, _, total, _, _, _ :: _ => .fail (.invalidLength total .fewerItems)
  | .cons _ required _ _ rest, name, fields, total, i, x, [] =>
    if required then .fail (.invalidLength i (.recordOf name fields))
    else rest.ofItems name fields total (i + 1) x []
  | .cons _ _ s set rest, name, fields, total, i, x, v :: vs => do
    let y ← Decoded.under (.index i) (s.ofValue v)
    rest.ofItems name fields total (i + 1) (set y x) vs

end

end Autodoc.Json
