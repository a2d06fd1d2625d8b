import Autodoc.Filter.Term
import Autodoc.Filter.Token

namespace Autodoc.Filter

abbrev Reader (α : Type) := List Token → Option (α × List Token)

/-- An operator between two terms; the one that binds tighter has the greater strength. -/
structure Operator where
  strength : Nat
  rightFirst : Bool
  build : Term → Term → Term

def operator? : Token → Option Operator
  | .sign "|" => some ⟨0, true, .pipe⟩
  | .sign "," => some ⟨1, false, .both⟩
  | .sign "=" => some ⟨2, true, .assign⟩
  | .sign "|=" => some ⟨2, true, .update⟩
  | .sign "+=" => some ⟨2, true, .updateArithmetic .add⟩
  | .sign "-=" => some ⟨2, true, .updateArithmetic .sub⟩
  | .sign "*=" => some ⟨2, true, .updateArithmetic .mul⟩
  | .sign "/=" => some ⟨2, true, .updateArithmetic .div⟩
  | .sign "%=" => some ⟨2, true, .updateArithmetic .rem⟩
  | .sign "//=" => some ⟨2, true, .updateElse⟩
  | .sign "//" => some ⟨3, true, .orElse⟩
  | .word "or" => some ⟨4, false, .logic true⟩
  | .word "and" => some ⟨5, false, .logic false⟩
  | .sign "==" => some ⟨6, false, .comparison .eq⟩
  | .sign "!=" => some ⟨6, false, .comparison .ne⟩
  | .sign "<" => some ⟨6, false, .comparison .lt⟩
  | .sign "<=" => some ⟨6, false, .comparison .le⟩
  | .sign ">" => some ⟨6, false, .comparison .gt⟩
  | .sign ">=" => some ⟨6, false, .comparison .ge⟩
  | .sign "+" => some ⟨7, false, .arithmetic .add⟩
  | .sign "-" => some ⟨7, false, .arithmetic .sub⟩
  | .sign "*" => some ⟨8, false, .arithmetic .mul⟩
  | .sign "/" => some ⟨8, false, .arithmetic .div⟩
  | .sign "%" => some ⟨9, false, .arithmetic .rem⟩
  | _ => none

def reserved : List String :=
  ["def", "if", "then", "elif", "else", "end", "as", "reduce", "foreach", "try", "catch", "label",
    "break", "import", "include", "module", "and", "or"]

def expect (s : String) : List Token → Option (List Token)
  | .sign s' :: ts => if s' = s then some ts else none
  | _ => none

def expectWord (w : String) : List Token → Option (List Token)
  | .word w' :: ts => if w' = w then some ts else none
  | _ => none

def questionMarks : List Token → Bool × List Token
  | .sign "?" :: ts => (true, (questionMarks ts).2)
  | ts => (false, ts)

def readParams : Reader (List (Bool × String))
  | .word p :: .sign ")" :: ts => some ([(false, p)], ts)
  | .var p :: .sign ")" :: ts => some ([(true, p)], ts)
  | .word p :: .sign ";" :: ts => (readParams ts).map fun (ps, ts) => ((false, p) :: ps, ts)
  | .var p :: .sign ";" :: ts => (readParams ts).map fun (ps, ts) => ((true, p) :: ps, ts)
  | _ => none

def Definition.make (name : String) (params : List (Bool × String)) (body : Term) : Definition :=
  let bound := params.filterMap fun (isVar, p) => if isVar then some p else none
  ⟨name, params.map Prod.snd, bound.foldr (fun p body => .bind (.call p []) p body) body⟩

/-- Folds the two kinds of calls that bind a variable step by step. -/
def foldTerm (isReduce : Bool) (source : Term) (p : Pattern) (args : List Term) : Term :=
  let here (t : Term) : Term := p.bind 1 (.var "0") t
  match isReduce, args with
  | true, [start, step] => .reduce source "0" start (here step)
  | false, [start, step] => .foreach source "0" start (here step) .identity
  | false, [start, step, emit] => .foreach source "0" start (here step) (here emit)
  | true, args => .call "reduce" args
  | false, args => .call "foreach" args

mutual

/-- A term; `commas` says whether it may be several, separated by commas. -/
def readTerm : Nat → Bool → Reader Term
  | 0, _, _ => none
  | n + 1, commas, ts => do
    let (t, ts) ← readAtom n ts
    readTail n commas 0 t ts

/-- Goes on from a term over the operators that are at least as strong as `least`. -/
def readTail : Nat → Bool → Nat → Term → Reader Term
  | 0, _, _, _, _ => none
  | n + 1, commas, least, left, ts =>
    match ts with
    | [] => some (left, [])
    | .word "as" :: r =>
      if 0 < least then some (left, ts)
      else do
        let (p, r) ← readPattern n r
        let r ← expect "|" r
        let (body, r) ← readTerm n commas r
        some (p.bind 0 left body, r)
    | t :: r =>
      match operator? t with
      | none => some (left, ts)
      | some op =>
        if op.strength < least ∨ (op.strength = 1 ∧ !commas) then some (left, ts)
        else do
          let (right, r) ← readAtom n r
          let above := if op.rightFirst then op.strength else op.strength + 1
          let (right, r) ← readTail n commas above right r
          readTail n commas least (op.build left right) r

def readAtom : Nat → Reader Term
  | 0, _ => none
  | n + 1, ts =>
    match ts with
    | .sign "-" :: r => do
      let (t, r) ← readAtom n r
      some (.negate t, r)
    | .word "def" :: r => do
      let (d, r) ← readDefinition n r
      let (rest, r) ← readTerm n true r
      some (.define d.name d.params d.body rest, r)
    | .word "try" :: r => do
      let (body, r) ← readAtom n r
      match expectWord "catch" r with
      | none => some (.attempt body none, r)
      | some r => do
        let (handler, r) ← readAtom n r
        some (.attempt body (some handler), r)
    | .word "label" :: .var x :: r => do
      let r ← expect "|" r
      let (body, r) ← readTerm n true r
      some (.label x body, r)
    | .word "break" :: .var x :: r => some (.leave x, r)
    | .word "null" :: r => readPath n (.literal .null) r
    | .word "true" :: r => readPath n (.literal (.bool true)) r
    | .word "false" :: r => readPath n (.literal (.bool false)) r
    | .word w :: r =>
      if w = "reduce" ∨ w = "foreach" then do
        let (source, r) ← readAtom n r
        let r ← expectWord "as" r
        let (p, r) ← readPattern n r
        let r ← expect "(" r
        let (args, r) ← readArgs n r
        readPath n (foldTerm (w == "reduce") source p args) r
      else if w = "if" then do
        let (t, r) ← readCondition n r
        readPath n t r
      else if reserved.contains w then none
      else
        match r with
        | .sign "(" :: r => do
          let (args, r) ← readArgs n r
          readPath n (.call w args) r
        | r => readPath n (.call w []) r
    | .var x :: r => readPath n (.var x) r
    | .number w :: r => readPath n (.literal (.ofNumeral w)) r
    | .format f :: .text ps :: r => do
      let t ← textTerm n (some f) ps
      readPath n t r
    | .format f :: r => readPath n (.format (some f) .identity) r
    | .text ps :: r => do
      let t ← textTerm n none ps
      readPath n t r
    | .sign ".." :: r => readPath n Term.recursion r
    | .key k :: r =>
      let (optional, r) := questionMarks r
      readPath n (.index .identity (Term.word k) optional) r
    | .sign "." :: .text ps :: r => do
      let key ← textTerm n none ps
      let (optional, r) := questionMarks r
      readPath n (.index .identity key optional) r
    | .sign "." :: r => readPath n .identity r
    | .sign "(" :: r => do
      let (t, r) ← readTerm n true r
      let r ← expect ")" r
      readPath n t r
    | .sign "[" :: .sign "]" :: r => readPath n .emptyList r
    | .sign "[" :: r => do
      let (t, r) ← readTerm n true r
      let r ← expect "]" r
      readPath n (.list t) r
    | .sign "\x7b" :: .sign "\x7d" :: r => readPath n .emptyObject r
    | .sign "\x7b" :: r => do
      let (t, r) ← readMembers n r
      readPath n t r
    | _ => none

/-- Steps into the value of a term; a question mark after a step makes it optional, and right after the
term it passes over the term's errors. -/
def readPath : Nat → Term → Reader Term
  | 0, _, _ => none
  | n + 1, t, ts =>
    match ts with
    | .key k :: r =>
      let (optional, r) := questionMarks r
      readPath n (.index t (Term.word k) optional) r
    | .sign "." :: .text ps :: r => do
      let key ← textTerm n none ps
      let (optional, r) := questionMarks r
      readPath n (.index t key optional) r
    | .sign "." :: .sign "[" :: r => readBracket n t r
    | .sign "." :: _ => none
    | .sign "[" :: r => readBracket n t r
    | .sign "?" :: r => readPath n (.attempt t none) r
    | r => some (t, r)

def readBracket : Nat → Term → Reader Term
  | 0, _, _ => none
  | n + 1, t, ts =>
    match ts with
    | .sign "]" :: r =>
      let (optional, r) := questionMarks r
      readPath n (.values t optional) r
    | .sign ":" :: r => do
      let (stop, r) ← readTerm n true r
      let r ← expect "]" r
      let (optional, r) := questionMarks r
      readPath n (.slice t none (some stop) optional) r
    | r => do
      let (key, r) ← readTerm n true r
      match r with
      | .sign "]" :: r =>
        let (optional, r) := questionMarks r
        readPath n (.index t key optional) r
      | .sign ":" :: .sign "]" :: r =>
        let (optional, r) := questionMarks r
        readPath n (.slice t (some key) none optional) r
      | .sign ":" :: r => do
        let (stop, r) ← readTerm n true r
        let r ← expect "]" r
        let (optional, r) := questionMarks r
        readPath n (.slice t (some key) (some stop) optional) r
      | _ => none

def readArgs : Nat → Reader (List Term)
  | 0, _ => none
  | n + 1, ts => do
    let (t, ts) ← readTerm n true ts
    match ts with
    | .sign ")" :: ts => some ([t], ts)
    | .sign ";" :: ts => do
      let (args, ts) ← readArgs n ts
      some (t :: args, ts)
    | _ => none

def readDefinition : Nat → Reader Definition
  | 0, _ => none
  | n + 1, ts =>
    match ts with
    | .word name :: r => do
      let (params, r) ←
        match r with
        | .sign "(" :: r => readParams r
        | r => some ([], r)
      let r ← expect ":" r
      let (body, r) ← readTerm n true r
      let r ← expect ";" r
      some (.make name params body, r)
    | _ => none

/-- A condition with its branches, after the first word. Without a branch for the other case the input goes
through. -/
def readCondition : Nat → Reader Term
  | 0, _ => none
  | n + 1, ts => do
    let (condition, ts) ← readTerm n true ts
    let ts ← expectWord "then" ts
    let (yes, ts) ← readTerm n true ts
    match ts with
    | .word "end" :: ts => some (.ifThen condition yes .identity, ts)
    | .word "elif" :: ts => do
      let (no, ts) ← readCondition n ts
      some (.ifThen condition yes no, ts)
    | .word "else" :: ts => do
      let (no, ts) ← readTerm n true ts
      let ts ← expectWord "end" ts
      some (.ifThen condition yes no, ts)
    | _ => none

def readKey : Nat → Reader (Term × Option Term)
  | 0, _ => none
  | n + 1, ts =>
    match ts with
    | .word w :: r => some ((Term.word w, some (Term.memberNamed w)), r)
    | .text ps :: r => do
      let key ← textTerm n none ps
      some ((key, some (.index .identity key false)), r)
    | .format f :: .text ps :: r => do
      let key ← textTerm n (some f) ps
      some ((key, some (.index .identity key false)), r)
    | .sign "(" :: r => do
      let (key, r) ← readTerm n true r
      let r ← expect ")" r
      some ((key, none), r)
    | _ => none

def readMembers : Nat → Reader Term
  | 0, _ => none
  | n + 1, ts => do
    let (t, ts) ← readMember n ts
    readMoreMembers n t ts

def readMoreMembers : Nat → Term → Reader Term
  | 0, _, _ => none
  | n + 1, sum, ts =>
    match ts with
    | .sign "\x7d" :: r => some (sum, r)
    | .sign "," :: r => do
      let (t, r) ← readMember n r
      readMoreMembers n (.arithmetic .add sum t) r
    | _ => none

def readMember : Nat → Reader Term
  | 0, _ => none
  | n + 1, ts =>
    match ts with
    | .var x :: .sign ":" :: r => do
      let (value, r) ← readTerm n false r
      some (.member (.var x) value, r)
    | .var x :: r => some (.member (Term.word x) (.var x), r)
    | ts => do
      let ((key, short), r) ← readKey n ts
      match r, short with
      | .sign ":" :: r, _ => do
        let (value, r) ← readTerm n false r
        some (.member key value, r)
      | r, some value => some (.member key value, r)
      | _, none => none

def readPattern : Nat → Reader Pattern
  | 0, _ => none
  | n + 1, ts =>
    match ts with
    | .var x :: r => some (.var x, r)
    | .sign "[" :: r => do
      let (ps, r) ← readPatterns n r
      some (.list ps, r)
    | .sign "\x7b" :: r => do
      let (ms, r) ← readPatternMembers n r
      some (.object ms, r)
    | _ => none

def readPatterns : Nat → Reader (List Pattern)
  | 0, _ => none
  | n + 1, ts => do
    let (p, ts) ← readPattern n ts
    match ts with
    | .sign "]" :: ts => some ([p], ts)
    | .sign "," :: ts => do
      let (ps, ts) ← readPatterns n ts
      some (p :: ps, ts)
    | _ => none

def readPatternMembers : Nat → Reader (List (Term × Pattern))
  | 0, _ => none
  | n + 1, ts => do
    let (m, ts) ←
      match ts with
      | .var x :: r => some ((Term.word x, Pattern.var x), r)
      | ts => do
        let ((key, _), r) ← readKey n ts
        let r ← expect ":" r
        let (p, r) ← readPattern n r
        some ((key, p), r)
    match ts with
    | .sign "\x7d" :: ts => some ([m], ts)
    | .sign "," :: ts => do
      let (ms, ts) ← readPatternMembers n ts
      some (m :: ms, ts)
    | _ => none

/-- A text as the sum of its pieces, its holes in a format if one is named. -/
def textTerm : Nat → Option String → List Piece → Option Term
  | 0, _, _ => none
  | _ + 1, _, [] => none
  | _ + 1, _, [.chars s] => some (Term.word s)
  | n + 1, f, .chars s :: .hole ts :: ps => do
    let (t, r) ← readTerm n true ts
    match r with
    | [] => readPieces n f (.arithmetic .add (Term.word s) (.format f t)) ps
    | _ :: _ => none
  | _ + 1, _, _ => none

def readPieces : Nat → Option String → Term → List Piece → Option Term
  | 0, _, _, _ => none
  | _ + 1, _, sum, [] => some sum
  | n + 1, f, sum, .chars s :: ps => readPieces n f (.arithmetic .add sum (Term.word s)) ps
  | n + 1, f, sum, .hole ts :: ps => do
    let (t, r) ← readTerm n true ts
    match r with
    | [] => readPieces n f (.arithmetic .add sum (.format f t)) ps
    | _ :: _ => none

end

def readDefinitions : Nat → List Token → Option (List Definition)
  | 0, _ => none
  | n + 1, ts =>
    match ts with
    | [] => some []
    | .word "def" :: r => do
      let (d, r) ← readDefinition n r
      let ds ← readDefinitions n r
      some (d :: ds)
    | _ => none

/-- Reading nests at most a few levels for each character. -/
def readingDepth (text : String) : Nat := 8 * text.length + 16

def Term.ofText? (text : String) : Option Term := do
  let ts ← Token.ofText? text
  match readTerm (readingDepth text) true ts with
  | some (t, []) => some t
  | _ => none

def definitionsOfText? (text : String) : Option (List Definition) := do
  let ts ← Token.ofText? text
  readDefinitions (readingDepth text) ts

end Autodoc.Filter
