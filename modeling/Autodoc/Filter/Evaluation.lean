import Autodoc.Filter.Scope

namespace Autodoc.Filter

/-- A value, and the way to it, last step first, if the way is wanted. -/
structure Point where
  path : Option (List Datum)
  datum : Datum

namespace Point

def plain (d : Datum) : Point := ⟨none, d⟩

def made (x : Point) (v : Except Datum Datum) : Results Point :=
  match x.path with
  | none => .ofExcept (v.map plain)
  | some _ => .raise (.error (.text ("invalid path expression with input " ++ x.datum.shown)))

def part (x : Point) (key d : Datum) : Point := ⟨x.path.map (key :: ·), d⟩

def partOr (x : Point) (key : Datum) (optional : Bool) (v : Except Datum Datum) : Results Point :=
  match v with
  | .ok d => .value (x.part key d)
  | .error e => if optional then .done else .raise (.error e)

def parts (x : Point) (optional : Bool) : Results Point :=
  match x.datum.parts with
  | .ok ps => .ofList (ps.map fun (k, d) => .ok (x.part k d))
  | .error e => if optional then .done else .raise (.error e)

def pathDatum (x : Point) : Datum := .list (x.path.getD []).reverse

end Point

/-- What a name stands for. -/
inductive Entry where
  | var (name : String) (d : Datum)
  | label (name : String) (number : Nat)
  | argument (name : String) (body : Term) (known : List Entry)
  | definition (name : String) (params : List String) (body : Term)

structure Context where
  entries : List Entry
  nextLabel : Nat

/-- A filter to enter: its parameters, its body, and the names known in it. -/
structure Callee where
  params : List String
  body : Term
  known : List Entry

namespace Context

def top : Context := ⟨[], 0⟩

def withEntry (c : Context) (e : Entry) : Context := { c with entries := e :: c.entries }

def var? (x : String) : List Entry → Option Datum
  | [] => none
  | .var y d :: es => if y = x then some d else var? x es
  | _ :: es => var? x es

def label? (x : String) : List Entry → Option Nat
  | [] => none
  | .label y n :: es => if y = x then some n else label? x es
  | _ :: es => label? x es

/-- The nearest filter of a name and a number of parameters. A definition is known in its own body. -/
def filter? (name : String) (arity : Nat) : List Entry → Option Callee
  | [] => (Definition.find? name arity).map fun d => ⟨d.params, d.body, [.definition name d.params d.body]⟩
  | .argument p body known :: es =>
    if p = name ∧ arity = 0 then some ⟨[], body, known⟩ else filter? name arity es
  | .definition f params body :: es =>
    if f = name ∧ params.length = arity then some ⟨params, body, .definition f params body :: es⟩
    else filter? name arity es
  | _ :: es => filter? name arity es

def enter (c : Context) (f : Callee) (args : List Term) : Context :=
  let passed := (f.params.zip args).map fun (p, t) => Entry.argument p t c.entries
  { c with entries := passed ++ f.known }

end Context

def rangeFrom (step stop : Datum) : Nat → Datum → Results Datum
  | 0, _ => .raise .exhausted
  | n + 1, d =>
    let goes :=
      match step.compare (.int 0) with
      | .gt => Comparison.lt.apply d stop
      | .lt => Comparison.gt.apply d stop
      | .eq => Comparison.ne.apply d stop
    if goes then
      .next (.ok d) fun _ =>
        match Arithmetic.add.apply d step with
        | .ok d => rangeFrom step stop n d
        | .error e => .raise (.error e)
    else .done

def rangeSteps : Nat := 0x10000000000000000

abbrev Keyed := List (Datum × Datum)

namespace Keyed

def sort (ks : Keyed) : Keyed := ks.mergeSort fun a b => a.1.atMost b.1

def groups : Keyed → List (List Datum)
  | [] => []
  | (k, v) :: rest =>
    match rest, groups rest with
    | (k', _) :: _, g :: gs => if k.same k' then (v :: g) :: gs else [v] :: g :: gs
    | _, gs => [v] :: gs

def least : Keyed → Datum
  | [] => .null
  | a :: rest => (rest.foldl (fun m b => if Comparison.lt.apply b.1 m.1 then b else m) a).2

def greatest : Keyed → Datum
  | [] => .null
  | a :: rest => (rest.foldl (fun m b => if Comparison.lt.apply b.1 m.1 then m else b) a).2

def apply (p : Primitive) (ks : Keyed) : Datum :=
  match p with
  | .sortBy => .list (ks.sort.map Prod.snd)
  | .groupBy => .list (ks.sort.groups.map .list)
  | .minBy => ks.least
  | .maxBy => ks.greatest
  | _ => .null

end Keyed

mutual

/-- All that a term puts out at a point, nested at most `n` deep. -/
def eval : Nat → Context → Term → Point → Results Point
  | 0, _, _, _ => .raise .exhausted
  | n + 1, c, t, x =>
    let values (t : Term) : Results Datum := (eval n c t (.plain x.datum)).map (·.map Point.datum)
    let pairs (t u : Term) (f : Datum → Datum → Except Datum Datum) : Results Point :=
      (values t).andThen fun a => (values u).andThen fun b => x.made (f a b)
    let updated (target : Term) (change : Change) : Results Point :=
      (update n c target change x.datum).andThen fun d => x.made (.ok d)
    match t with
    | .identity => .value x
    | .literal d => x.made (.ok d)
    | .format name t =>
      let f := (name.bind Format.find?).getD fun d => .ok (.text d.asText)
      (values t).andThen fun d => x.made (f d)
    | .emptyList => x.made (.ok (.list []))
    | .list t =>
      match (values t).collect [] with
      | .ok ds => x.made (.ok (.list ds))
      | .error r => .raise r
    | .emptyObject => x.made (.ok (.object []))
    | .member key value => pairs key value fun k v => k.textOf.map fun k => .object [(k, v)]
    | .values t optional => (eval n c t x).andThen fun y => y.parts optional
    | .index t key optional =>
      (eval n c t x).andThen fun y => (values key).andThen fun k =>
        y.partOr k optional (y.datum.index k)
    | .slice t start stop optional =>
      let bound (t : Option Term) : Results (Option Datum) :=
        match t with
        | none => .value none
        | some t => (values t).map (·.map some)
      (eval n c t x).andThen fun y => (bound start).andThen fun a => (bound stop).andThen fun b =>
        y.partOr (sliceKey a b) optional (y.datum.slice (a.getD .null) (b.getD .null))
    | .negate t => (values t).andThen fun d => x.made d.negate
    | .pipe t u => (eval n c t x).andThen fun y => eval n c u y
    | .bind source name body =>
      (values source).andThen fun d => eval n (c.withEntry (.var name d)) body x
    | .both t u => (eval n c t x).append fun _ => eval n c u x
    | .arithmetic op t u => pairs t u op.apply
    | .comparison op t u => pairs t u fun a b => .ok (.bool (op.apply a b))
    | .logic decided t u =>
      (values t).andThen fun a =>
        if a.holds == decided then x.made (.ok (.bool decided))
        else (values u).andThen fun b => x.made (.ok (.bool b.holds))
    | .orElse t u =>
      let holding := (eval n c t x).filter fun
        | .ok y => y.datum.holds
        | .error _ => true
      match holding with
      | .done => eval n c u x
      | s => s
    | .assign target value =>
      (values value).andThen fun d => updated target fun _ => .value d
    | .update target step =>
      updated target fun d => (eval n c step (.plain d)).map (·.map Point.datum)
    | .updateArithmetic op target value =>
      (values value).andThen fun b => updated target fun a => .ofExcept (op.apply a b)
    | .updateElse target value =>
      (values value).andThen fun b => updated target fun a => .value (if a.holds then a else b)
    | .label name body =>
      let number := c.nextLabel
      .untilLeft number (eval n ⟨.label name number :: c.entries, number + 1⟩ body x)
    | .leave name =>
      match Context.label? name c.entries with
      | some number => .raise (.leave number)
      | none => .done
    | .reduce source name start step =>
      (eval n c start x).andThen fun y =>
        (values source).fold (fun d y => eval n (c.withEntry (.var name d)) step y) y
    | .foreach source name start step emit =>
      (eval n c start x).andThen fun y =>
        (values source).scan (fun d y => eval n (c.withEntry (.var name d)) step y)
          (fun d y => eval n (c.withEntry (.var name d)) emit y) y
    | .attempt body handler =>
      (eval n c body x).rescue fun e =>
        match handler with
        | none => .done
        | some h => (eval n c h (.plain e)).andThen fun y => x.made (.ok y.datum)
    | .ifThen condition yes no =>
      (values condition).andThen fun d => eval n c (if d.holds then yes else no) x
    | .define name params body rest => eval n (c.withEntry (.definition name params body)) rest x
    | .var name =>
      match Context.var? name c.entries with
      | some d => x.made (.ok d)
      | none => .done
    | .call name args =>
      match Context.filter? name args.length c.entries with
      | some f => eval n (c.enter f args) f.body x
      | none =>
        match Primitive.find? name args.length, args with
        | some .empty, _ => .done
        | some .error, _ => .raise (.error x.datum)
        | some .path, [f] =>
          (eval n c f ⟨some [], x.datum⟩).andThen fun y => x.made (.ok y.pathDatum)
        | some .getpath, [p] =>
          (values p).andThen fun p =>
            match p.listOf with
            | .ok path =>
              match Datum.along path x.datum with
              | .ok d => .value ⟨x.path.map (path.reverse ++ ·), d⟩
              | .error e => .raise (.error e)
            | .error e => .raise (.error e)
        | some .first, [f] => (eval n c f x).take 1
        | some .last, [f] => .last none (eval n c f x)
        | some .limit, [k, f] =>
          (values k).andThen fun k =>
            match k.wordOf with
            | .ok k => (eval n c f x).take k.toNat
            | .error e => .raise (.error e)
        | some .skip, [k, f] =>
          (values k).andThen fun k =>
            match k.wordOf with
            | .ok k => (eval n c f x).drop k.toNat
            | .error e => .raise (.error e)
        | some .range, [start, stop, step] =>
          (values start).andThen fun a => (values stop).andThen fun b => (values step).andThen fun s =>
            (rangeFrom s b rangeSteps a).andThen fun d => x.made (.ok d)
        | some p, [f] =>
          let keyed (d : Datum) : Except Raised (Datum × Datum) :=
            (Outputs.collect [] (eval n c f (.plain d))).map fun ks => (.list (ks.map Point.datum), d)
          match x.datum.listOf with
          | .error e => .raise (.error e)
          | .ok ds =>
            match ds.mapM keyed with
            | .error r => .raise r
            | .ok ks => x.made (.ok (Keyed.apply p ks))
        | _, [] =>
          match inputFunctions.lookup name with
          | some f => x.made (f x.datum)
          | none => .done
        | _, [t] =>
          match argumentFunctions.lookup name with
          | some f => (values t).andThen fun a => x.made (f x.datum a)
          | none => .done
        | _, [t, u] =>
          match twoNumberFunctions.lookup name, matchFunctions.lookup name with
          | some f, _ => pairs t u fun a b => do return .float (f (← a.floatOf) (← b.floatOf))
          | none, some f => pairs t u fun a b => f x.datum a b
          | none, none => .done
        | _, _ => .done

/-- The value with every part that a term leads to replaced, nested at most `n` deep. -/
def update : Nat → Context → Term → Change → Change
  | 0, _, _, _, _ => .raise .exhausted
  | n + 1, c, t, change, d =>
    let values (t : Term) : Results Datum := (eval n c t (.plain d)).map (·.map Point.datum)
    match t with
    | .identity => change d
    | .index t key optional =>
      update n c t (fun y => (values key).fold (fun k y => Outputs.ofRaised (y.replaceAt k optional change)) y) d
    | .slice t start stop optional =>
      let bound (t : Option Term) : Results Datum :=
        match t with
        | none => .value .null
        | some t => values t
      update n c t
        (fun y => (bound start).fold
          (fun a y => (bound stop).fold
            (fun b y => Outputs.ofRaised (y.replaceSlice a b optional change)) y) y) d
    | .values t optional => update n c t (fun y => Outputs.ofRaised (y.replaceParts optional change)) d
    | .pipe t u => update n c t (fun y => update n c u change y) d
    | .both t u => (update n c t change d).andThen fun d => update n c u change d
    | .bind source name body =>
      (values source).fold (fun v d => update n (c.withEntry (.var name v)) body change d) d
    | .ifThen condition yes no =>
      (values condition).fold (fun v d => update n c (if v.holds then yes else no) change d) d
    | .orElse t u =>
      let holding := (values t).filter fun
        | .ok y => y.holds
        | .error _ => true
      match holding with
      | .done => update n c u change d
      | _ => update n c t change d
    | .attempt t none => (update n c t change d).rescue fun _ => .value d
    | .define name params body rest =>
      update n (c.withEntry (.definition name params body)) rest change d
    | .call name args =>
      match Context.filter? name args.length c.entries, name, args with
      | some f, _, _ => update n (c.enter f args) f.body change d
      | none, "empty", [] => .value d
      | none, _, _ =>
        (eval n c (.call name args) ⟨some [], d⟩).fold
          (fun x d => Datum.replaceAlong change (x.path.getD []).reverse d) d
    | t =>
      (eval n c t ⟨some [], d⟩).fold
        (fun x d => Datum.replaceAlong change (x.path.getD []).reverse d) d

end

def evaluationDepth : Nat := 100000

def Term.run (t : Term) (d : Datum) : Except Raised (List Datum) :=
  (Outputs.collect [] (eval evaluationDepth .top t (.plain d))).map fun ys => ys.map Point.datum

end Autodoc.Filter
