import Autodoc.Json.Schema.OfValue
import Autodoc.Json.Skim

namespace Autodoc.Json

/-- A value that does not fit. It is read to its end, a list or an object only to its bracket. -/
def scanMisfit (expected : Expected) (s : List Char) : Fault :=
  let misfit (found : Found) (s : List Char) : Fault := ⟨[], .invalidType found expected, s, 0⟩
  let word (w : List Char) (found : Found) (r : List Char) : Fault :=
    match scanWord w r with
    | .error e => e
    | .ok r' => misfit found r'
  let number (negative : Bool) (r : List Char) : Fault :=
    match scanNumber negative r with
    | .error e => e
    | .ok (n, r') => misfit (.ofNumber n) r'
  match s with
  | [] => .here .endInValue []
  | 'n' :: r => word "ull".toList .null r
  | 't' :: r => word "rue".toList (.bool true) r
  | 'f' :: r => word "alse".toList (.bool false) r
  | '-' :: r => number true r
  | '"' :: r =>
    match scanString [] r with
    | .error e => e
    | .ok (t, r') => misfit (.text t) r'
  | '[' :: r => misfit .list ('[' :: r)
  | '{' :: r => misfit .object ('{' :: r)
  | c :: r => if isDigit c then number false (c :: r) else .next .expectedValue (c :: r)

def scanText (expected : Expected) (s : List Char) : Scan String :=
  match skipBlanks s with
  | '"' :: r => scanString [] r
  | r => .error (scanMisfit expected r)

def scanBool (s : List Char) : Scan Bool :=
  match skipBlanks s with
  | 't' :: r => (scanWord "rue".toList r).map (true, ·)
  | 'f' :: r => (scanWord "alse".toList r).map (false, ·)
  | r => .error (scanMisfit .bool r)

def wordOfNumber (n : Number) (s : List Char) : Scan UInt32 :=
  match n with
  | .int n =>
    if 0 ≤ n ∧ n ≤ 0xFFFFFFFF then .ok (n.toNat.toUInt32, s)
    else .error ⟨[], .invalidValue (.int n) .word, s, 0⟩
  | .float x => .error ⟨[], .invalidType (.float x) .word, s, 0⟩

def scanWord32 (s : List Char) : Scan UInt32 :=
  let number (negative : Bool) (r : List Char) : Scan UInt32 :=
    match scanNumber negative r with
    | .error e => .error e
    | .ok (n, r') => wordOfNumber n r'
  match skipBlanks s with
  | '-' :: r => number true r
  | c :: r => if isDigit c then number false (c :: r) else .error (scanMisfit .word (c :: r))
  | [] => .error (.here .endInValue [])

def scanNull (s : List Char) : Except Fault (List Char) :=
  match skipBlanks s with
  | 'n' :: r => scanWord "ull".toList r
  | r => .error (scanMisfit .null r)

def scanVariant (variants : List (String × α)) (s : List Char) : Scan (String × α) :=
  match scanText .variant s with
  | .error e => .error e
  | .ok (name, r) =>
    match variants.lookup name with
    | some x => .ok ((name, x), r)
    | none => .error ⟨[], .unknownVariant name (variants.map Prod.fst), r, 0⟩

def scanChoice (variants : List (String × α)) (s : List Char) : Scan α :=
  match skipBlanks s with
  | [] => .error (.here .endInValue [])
  | '"' :: r => (scanVariant variants ('"' :: r)).map fun ((_, x), r') => (x, r')
  | '{' :: r =>
    match scanVariant variants r with
    | .error e => .error e
    | .ok ((name, x), r') =>
      match scanColon r' with
      | .error e => .error e
      | .ok r' =>
        match (scanNull r').mapError (·.under (.key name)) with
        | .error e => .error e
        | .ok r' =>
          match skipBlanks r' with
          | [] => .error (.here .endInObject [])
          | '}' :: r' => .ok (x, r')
          | r' => .error (.here .expectedValue r')
  | r => .error (.next .expectedValue r)

def scanEntry (read : List Char → Scan α) (k : String) (t : Table α) (s : List Char) :
    Scan (Table α) :=
  match scanColon s with
  | .error e => .error e
  | .ok s' => (Scan.under (.key k) (read s')).map fun (x, r) => (t.insert k x, r)

/-- A record being read: what it is so far and the fields that were given. -/
structure Partial (α : Type) where
  value : α
  given : List String

/-- A member of a record, after its key. A field that comes again ends the record at once, before its value
is looked at. -/
def scanMember (read : String → Option (List Char → Scan (α → α))) (k : String) (p : Partial α)
    (s : List Char) : Scan (Except Problem (Partial α)) :=
  match read k with
  | none =>
    match scanColon s with
    | .error e => .error e
    | .ok s' =>
      match skimValue s' with
      | .error e => .error (e.under (.key k))
      | .ok r => .ok (.ok p, r)
  | some read =>
    if p.given.contains k then .ok (.error (.duplicateField k), s)
    else
      match scanColon s with
      | .error e => .error e
      | .ok s' =>
        (Scan.under (.key k) (read s')).map fun (set, r) => (.ok ⟨set p.value, k :: p.given⟩, r)

/-- The members of a record after its brace, up to but without the closing one, or up to a problem that ends
it. -/
def scanRecord (read : String → Option (List Char → Scan (α → α))) :
    Nat → Bool → Partial α → List Char → Scan (Except Problem (Partial α))
  | 0, _, _, s => .error (.here .endInObject s)
  | fuel + 1, first, p, s =>
    match Scan.under .unread (scanKey first s) with
    | .error e => .error e
    | .ok (none, r) => .ok (.ok p, r)
    | .ok (some k, r) =>
      match scanMember read k p r with
      | .error e => .error e
      | .ok (.error problem, r') => .ok (.error problem, r')
      | .ok (.ok p, r') => scanRecord read fuel false p r'

def afterEnd (close : Char) (s : List Char) : List Char :=
  match skipBlanks s with
  | c :: r =>
    if c = close then r
    else if close = ']' ∧ c = ',' then skipBlanks r
    else c :: r
  | [] => []

def scanListEnd (s : List Char) : Except Fault (List Char) :=
  match skipBlanks s with
  | [] => .error (.here .endInList [])
  | ']' :: r => .ok r
  | ',' :: r =>
    match skipBlanks r with
    | ']' :: r' => .error (.next .trailingComma (']' :: r'))
    | r' => .error (.next .trailingCharacters r')
  | r => .error (.next .trailingCharacters r)

def scanNextItem (first : Bool) (s : List Char) : Except Fault (Option (List Char) × List Char) :=
  match skipBlanks s with
  | [] => .error (.here .endInList [])
  | ']' :: r => .ok (none, ']' :: r)
  | c :: r =>
    if first then .ok (some (c :: r), c :: r)
    else if c = ',' then
      match skipBlanks r with
      | [] => .error (.here .endInValue [])
      | ']' :: r' => .error (.next .trailingComma (']' :: r'))
      | r' => .ok (some r', r')
    else .error (.next .expectedListCommaOrEnd (c :: r))

mutual

def Schema.ofText : Schema α → List Char → Scan α
  | .text, s => scanText .text s
  | .bool, s => scanBool s
  | .word, s => scanWord32 s
  | .nullable t, s =>
    match skipBlanks s with
    | 'n' :: r => (scanWord "ull".toList r).map (none, ·)
    | r => (t.ofText r).map fun (x, r) => (some x, r)
  | .list t, s =>
    match skipBlanks s with
    | '[' :: r =>
      (scanItems (fun i s => Scan.under (.index i) (t.ofText s)) (r.length + 1) 0 r).map
        fun (xs, r) => (xs, r.tail)
    | r => .error (scanMisfit .list r)
  | .table t, s =>
    match skipBlanks s with
    | '{' :: r =>
      (scanMembers (scanEntry t.ofText) (r.length + 1) true {} r).map fun (t, r) => (t, r.tail)
    | r => .error (scanMisfit .table r)
  | .choice variants, s => scanChoice variants s
  | .record name blank slots, s =>
    match skipBlanks s with
    | '[' :: r =>
      match slots.ofItemsText name slots.size 0 blank r with
      | .error e => .error e
      | .ok (.error problem, r') => .error ⟨[], problem, afterEnd ']' r', 0⟩
      | .ok (.ok x, r') => (scanListEnd r').map (x, ·)
    | '{' :: r =>
      match scanRecord slots.ofMemberText (r.length + 1) true ⟨blank, []⟩ r with
      | .error e => .error e
      | .ok (.error problem, r') => .error ⟨[], problem, afterEnd '}' r', 0⟩
      | .ok (.ok p, r') =>
        match slots.missing? p.given with
        | none => .ok (p.value, r'.tail)
        | some field => .error ⟨[], .missingField field, afterEnd '}' r', 0⟩
    | r => .error (scanMisfit (.record name) r)

def Slots.ofMemberText : Slots α → String → Option (List Char → Scan (α → α))
  | .nil, _ => none
  | .cons name _ t set rest, k =>
    if name = k then some fun s => (t.ofText s).map fun (x, r) => (set x, r)
    else rest.ofMemberText k

def Slots.ofItemsText : Slots α → String → Nat → Nat → α → List Char → Scan (Except Problem α)
  | .nil, _, _, _, x, s => .ok (.ok x, s)
  | .cons _ required t set rest, name, fields, i, x, s =>
    match scanNextItem (i == 0) s with
    | .error e => .error e
    | .ok (none, r) =>
      if required then .ok (.error (.invalidLength i (.recordOf name fields)), r)
      else rest.ofItemsText name fields (i + 1) x r
    | .ok (some r, _) =>
      match Scan.under (.index i) (t.ofText r) with
      | .error e => .error e
      | .ok (y, r') => rest.ofItemsText name fields (i + 1) (set y x) r'

end

def Schema.decodeText (s : Schema α) (text : String) : Decoded α :=
  let whole := text.toList
  match s.ofText whole with
  | .error e => .error (e.toError whole)
  | .ok (x, _) => .ok x

end Autodoc.Json
