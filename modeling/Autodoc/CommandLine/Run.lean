import Autodoc.CommandLine.Arguments
import Autodoc.ConfigFile
import Autodoc.Delivery
import Autodoc.Filter.Apply
import Autodoc.PathPattern
import Autodoc.Report

namespace Autodoc.CommandLine

inductive CommandError where
  | inputs (e : InputPathError)
  | unreadable (path : String) (e : FileError)
  | unparsable (path : String) (e : Json.DecodeError)
  | filter (path : String) (e : Filter.FilterError)
  | document (e : Json.DecodeError)
  | snapshot (e : SnapshotError)
  | config (path : String) (e : ConfigError)
  | generate (e : GenerateError)
  | outOfDate (stale count : Nat)

namespace CommandError

def causes : CommandError → List String
  | inputs e => ["failed to resolve input file paths", e.message]
  | unreadable path e => ["failed to read snapshot file (" ++ path ++ ")", e.message]
  | unparsable path e => ["failed to parse JSON snapshot file (" ++ path ++ ")", e.message]
  | filter path e => ["failed to apply jq expression to snapshot file (" ++ path ++ ")", e.message]
  | document e => ["invalid snapshot document", e.shown]
  | snapshot e => [e.message]
  | config path e => ("failed to load config (" ++ path ++ ")") :: e.causes
  | generate e => e.causes
  | outOfDate stale count =>
    [toString stale ++ " of " ++ toString count ++ " generated files are out of date"]

def message (e : CommandError) : String := ": ".intercalate e.causes

end CommandError

structure Console where
  tree : FileTree
  input : String
  output : String
  diagnostics : String

abbrev Run (α : Type) := Action Console CommandError α

def print (s : String) : Run Unit := Action.modify fun c => { c with output := c.output ++ s }

def complain (s : String) : Run Unit :=
  Action.modify fun c => { c with diagnostics := c.diagnostics ++ s }

def check (x : Except CommandError α) : Run α := Action.ask fun _ => .ofExcept x

def generating (x : Logged GenerateError α) : Run α := Action.ask fun _ => x.mapError .generate

/-- The text of a file, or of what is left of the input. -/
def readSource (path : String) : Run String := fun c =>
  if path = "-" then ⟨[], { c with input := "" }, .ok c.input⟩
  else ⟨[], c, (c.tree.readText path).mapError (.unreadable path)⟩

def Sources.paths (s : Sources) (t : FileTree) : Except CommandError (List String) :=
  ((s.inputs.mapM (inputPaths t)).map List.flatten).mapError .inputs

def Sources.documents (s : Sources) (path text : String) : Except CommandError (List Snapshot) := do
  let v ← (Json.Value.ofText text).mapError (.unparsable path)
  let vs ←
    match s.filter with
    | none => pure [v]
    | some f => (Filter.apply f v).mapError (.filter path)
  vs.mapM fun v => (Snapshot.schema.ofValue v).mapError .document

def Sources.read (s : Sources) : List String → Run (List Snapshot)
  | [] => pure []
  | path :: paths => do
    let text ← readSource path
    let docs ← check (s.documents path text)
    let more ← s.read paths
    pure (docs ++ more)

def Sources.registry (s : Sources) : Run Registry := do
  let paths ← fun c => ⟨[], c, s.paths c.tree⟩
  let docs ← s.read paths
  .note .info "loaded registry snapshot" [("documents", toString docs.length)]
  check ((Registry.ofDocuments docs).mapError .snapshot)

def Sources.loadConfig (s : Sources) : Run Config := fun c =>
  match s.config with
  | none => ⟨[], c, .ok .default⟩
  | some path => ⟨[], c, (Config.load c.tree path).mapError (.config path)⟩

/-- Hands all generated files to a sink that works on a part of the console. -/
def emitInto (r : Registry) (config : Config) (sink : Sink σ) (kept : Console → σ)
    (keep : Console → σ → Console) : Run (Nat × σ) := fun c =>
  let x := Emission.emitAll config sink ⟨r, kept c⟩
  ⟨x.events, keep c x.state.kept, (x.outcome.map (·, x.state.kept)).mapError .generate⟩

def padTo (width : Nat) (s : String) : String :=
  String.ofList (List.replicate (width - s.length) ' ') ++ s

def driftLine (dir : String) (drift : String × FileStatus) : String :=
  padTo 8 drift.2.name ++ " " ++ joinPath dir drift.1 ++ "\n"

def checkFiles (r : Registry) (config : Config) (dir : String) : Run Unit := do
  let (count, k) ←
    emitInto r config (checkSink dir) (fun c => (⟨c.tree, []⟩ : Check)) fun c _ => c
  let drift := k.statuses.filter fun s => s.2 ≠ .fresh
  complain (String.join (drift.map (driftLine dir)))
  if drift.isEmpty then
    .note .info "all generated files are up to date" [("count", toString count)]
  else check (.error (.outOfDate drift.length count))

def writeFiles (r : Registry) (config : Config) (dir : String) : Run Unit := do
  let (count, _) ← emitInto r config (writeSink dir) (·.tree) fun c t => { c with tree := t }
  .note .info "done" [("count", toString count), ("dir", dir)]

def runGenerate (s : Sources) (dir : String) (checking strict : Bool) : Run Unit := do
  let r ← s.registry
  let config ← s.loadConfig
  let config := if strict then { config with unknownTypes := .fail } else config
  if checking then checkFiles r config dir else writeFiles r config dir

def runIntrospect (s : Sources) (nickname : String) (signature : Bool) : Run Unit := do
  let r ← s.registry
  let config ← s.loadConfig
  print (← generating (.ofExcept (r.report nickname)))
  if signature then print (← generating (r.methodDoc config nickname))

def runList (s : Sources) (kind : ListKind) : Run Unit := do
  let r ← s.registry
  let config ← s.loadConfig
  let names ←
    match kind with
    | .operations => generating (do return (← r.nicknames config).toList)
    | .enums => fun c =>
      let x := enumNames config r
      ⟨x.events, c, x.outcome.mapError .generate⟩
  print (String.join (names.map (· ++ "\n")))

def Command.run : Command → Run Unit
  | generate s dir checking strict => runGenerate s dir checking strict
  | introspect s nickname signature => runIntrospect s nickname signature
  | list s kind => runList s kind

end Autodoc.CommandLine
