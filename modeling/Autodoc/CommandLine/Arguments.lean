namespace Autodoc.CommandLine

structure Sources where
  filter : Option String
  config : Option String
  inputs : List String
  deriving DecidableEq

inductive ListKind where
  | operations
  | enums
  deriving DecidableEq

inductive Command where
  | generate (sources : Sources) (dir : String) (check strict : Bool)
  | introspect (sources : Sources) (nickname : String) (signature : Bool)
  | list (sources : Sources) (kind : ListKind)
  deriving DecidableEq

/-- What arguments ask for when they name no command to run. -/
inductive Refusal where
  | usage
  | help
  | version
  deriving DecidableEq

inductive Switch where
  | help
  | filter
  | config
  | input
  | dir
  | check
  | strict
  | signature
  deriving DecidableEq

namespace Switch

def long : Switch → String
  | help => "help"
  | filter => "jq-expr"
  | config => "config"
  | input => "input"
  | dir => "out-dir"
  | check => "check"
  | strict => "strict-types"
  | signature => "signature"

def short? : Switch → Option Char
  | help => some 'h'
  | input => some 'i'
  | dir => some 'o'
  | _ => none

def takesValue : Switch → Bool
  | filter | config | input | dir => true
  | _ => false

def takesMany (s : Switch) : Bool := s == input

/-- A path may not be empty. -/
def accepts (s : Switch) (value : String) : Bool :=
  match s with
  | config | dir => value != ""
  | _ => true

end Switch

structure Form where
  switches : List Switch
  word : Option (String → Bool)

structure Given where
  flags : List Switch
  values : List (Switch × String)
  word : Option String

namespace Given

def empty : Given := ⟨[], [], none⟩

def flag (g : Given) (s : Switch) : Except Refusal Given :=
  if g.flags.contains s then .error .usage else .ok { g with flags := s :: g.flags }

def allOf (g : Given) (s : Switch) : List String :=
  g.values.filterMap fun (s', v) => if s' = s then some v else none

def one? (g : Given) (s : Switch) : Option String := (g.allOf s).head?

def value (g : Given) (s : Switch) (v : String) : Except Refusal Given :=
  if !s.accepts v || (!s.takesMany && !(g.allOf s).isEmpty) then .error .usage
  else .ok { g with values := g.values ++ [(s, v)] }

def own (g : Given) (form : Form) (w : String) : Except Refusal Given :=
  match form.word, g.word with
  | some accepts, none => if accepts w then .ok { g with word := some w } else .error .usage
  | _, _ => .error .usage

end Given

/-- What the next argument may be. -/
inductive Slot where
  | any
  | needed (s : Switch)
  | more (s : Switch)

def Slot.isNeeded : Slot → Bool
  | needed _ => true
  | _ => false

inductive Shape where
  | rest
  | long (name : String) (value : Option String)
  | short (name : Char) (attached : List Char)
  | word

def splitEquals (cs : List Char) : String × Option String :=
  let (name, r) := cs.span (· ≠ '=')
  (String.ofList name, if r.isEmpty then none else some (String.ofList r.tail))

def Shape.of (arg : String) : Shape :=
  match arg.toList with
  | ['-', '-'] => rest
  | '-' :: '-' :: cs =>
    let (name, value) := splitEquals cs
    long name value
  | '-' :: c :: cs => short c cs
  | _ => word

def attachedValue? : List Char → Option String
  | [] => none
  | '=' :: cs => some (String.ofList cs)
  | cs => some (String.ofList cs)

def takeSwitch (s : Switch) (value : Option String) (g : Given) : Except Refusal (Slot × Given) :=
  if s.takesValue then
    match value with
    | some v => (g.value s v).map (.any, ·)
    | none => .ok (.needed s, g)
  else
    match value with
    | some _ => .error .usage
    | none => if s = .help then .error .help else (g.flag s).map (.any, ·)

/-- Reads the arguments of a command. After two hyphens all are words. -/
def readGiven (form : Form) : Slot → List String → Given → Except Refusal Given
  | slot, [], g => if slot.isNeeded then .error .usage else .ok g
  | slot, a :: as, g =>
    match Shape.of a, slot with
    | .word, .needed s | .word, .more s => do
      readGiven form (if s.takesMany then .more s else .any) as (← g.value s a)
    | .word, .any => do readGiven form .any as (← g.own form a)
    | shape, slot =>
      if slot.isNeeded then .error .usage
      else
        match shape with
        | .rest => as.foldlM (fun g w => g.own form w) g
        | .long name value =>
          match form.switches.find? fun s => s.long == name with
          | none => .error .usage
          | some s => do
            let (slot, g) ← takeSwitch s value g
            readGiven form slot as g
        | .short c attached =>
          match form.switches.find? fun s => s.short? == some c with
          | none => .error .usage
          | some s => do
            let (slot, g) ← takeSwitch s (if s.takesValue then attachedValue? attached else none) g
            readGiven form slot as g
        | .word => .error .usage

def common : List Switch := [.help, .filter, .config, .input]

def Given.sources (g : Given) : Except Refusal Sources :=
  match g.allOf .input with
  | [] => .error .usage
  | inputs => .ok ⟨g.one? .filter, g.one? .config, inputs⟩

def ListKind.ofName? : String → Option ListKind
  | "operations" => some operations
  | "enums" => some enums
  | _ => none

def readGenerate (args : List String) : Except Refusal Command := do
  let g ← readGiven ⟨common ++ [.dir, .check, .strict], none⟩ .any args .empty
  let dir := (g.one? .dir).getD "."
  return .generate (← g.sources) dir (g.flags.contains .check) (g.flags.contains .strict)

def readIntrospect (args : List String) : Except Refusal Command := do
  let g ← readGiven ⟨common ++ [.signature], some fun _ => true⟩ .any args .empty
  match g.word with
  | none => throw .usage
  | some nickname => return .introspect (← g.sources) nickname (g.flags.contains .signature)

def readList (args : List String) : Except Refusal Command := do
  let isKind (w : String) : Bool := (ListKind.ofName? w).isSome
  let g ← readGiven ⟨common, some isKind⟩ .any args .empty
  match g.word.bind ListKind.ofName? with
  | none => throw .usage
  | some kind => return .list (← g.sources) kind

def commandNames : List String := ["generate", "introspect", "list", "help"]

def Command.ofArguments (args : List String) : Except Refusal Command :=
  match args with
  | "generate" :: args => readGenerate args
  | "introspect" :: args => readIntrospect args
  | "list" :: args => readList args
  | ["help"] => .error .help
  | ["help", name] => .error (if commandNames.contains name then .help else .usage)
  | "--help" :: _ => .error .help
  | "--version" :: _ => .error .version
  | a :: _ =>
    match Shape.of a with
    | .short 'h' _ => .error .help
    | .short 'V' _ => .error .version
    | _ => .error .usage
  | [] => .error .usage

end Autodoc.CommandLine
