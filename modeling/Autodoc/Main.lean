import Autodoc.CommandLine.Run

namespace Autodoc.Program

/-- The place of a file, and what it holds, with everything in it to a depth if it is a directory. -/
partial def load (depth : Nat) (place : Place) (t : FileTree) : IO FileTree := do
  match ← (IO.FS.realPath ("/" ++ "/".intercalate place)).toBaseIO with
  | .error _ => return t
  | .ok path =>
    if ← path.isDir then
      let t := t.put place .directory
      if depth = 0 then return t
      (← path.readDir).foldlM (fun t e => load (depth - 1) (place ++ [e.fileName]) t) t
    else return t.put place (.file (← IO.FS.readBinFile path))

def mount (t : FileTree) (path : String) (depth : Nat) : IO FileTree := do
  let step (placed : Place × FileTree) (name : String) : IO (Place × FileTree) := do
    let place :=
      if name = "" ∨ name = "." then placed.1
      else if name = ".." then placed.1.dropLast
      else placed.1 ++ [name]
    return (place, ← load 0 place placed.2)
  let (place, t) ← (splitPath path).foldlM step (t.start path, t)
  load depth place t

/-- The paths that a command reads or writes, and how deep below each. -/
def touched (command : CommandLine.Command) : List (String × Nat) :=
  let given (s : CommandLine.Sources) : List (String × Nat) :=
    (s.config.toList.map (·, 0)) ++ s.inputs.map fun text =>
      if isPattern text then
        let fixed := (splitPath text).takeWhile fun part => !isPattern part
        let deep := text.toList.contains '*' && (text.splitOn "**").length > 1
        let path := "/".intercalate fixed
        (if text.startsWith "/" && path.isEmpty then "/" else path,
          if deep then 64 else (splitPath text).length)
      else (text, 0)
  match command with
  | .generate s dir _ _ => (dir, 1) :: given s
  | .introspect s _ _ | .list s _ => given s

def store (before after : FileTree) : IO Unit :=
  after.entries.reverse.forM fun (place, e) => do
    let path := "/" ++ "/".intercalate place
    match e, before.find? place with
    | .directory, some .directory => pure ()
    | .directory, _ => IO.FS.createDirAll path
    | .file data, some (.file old) => if data.data ≠ old.data then IO.FS.writeBinFile path data
    | .file data, _ => IO.FS.writeBinFile path data

def usage : String :=
  "usage: autodoc generate -i FILE... [-o DIR] [--check] [--strict-types]\n"
    ++ "       autodoc introspect NICKNAME -i FILE... [--signature]\n"
    ++ "       autodoc list operations|enums -i FILE...\n"
    ++ "every command takes --jq-expr FILTER and --config FILE; FILE is a path, a pattern or -\n"

def run (command : CommandLine.Command) : IO UInt32 := do
  let here := (splitPath (← IO.currentDir).toString).filter (· ≠ "")
  let tree ← (touched command).foldlM (fun t (path, depth) => mount t path depth)
    (← mount ⟨here, []⟩ "." 0)
  let reads := match command with
    | .generate s .. | .introspect s .. | .list s .. => s.inputs.contains "-"
  let input ← if reads then (← IO.getStdin).readToEnd else pure ""
  let r := command.run ⟨tree, input, "", ""⟩
  for e in Event.atLeast .info r.events do IO.eprintln e.line
  store tree r.state.tree
  IO.print r.state.output
  IO.eprint r.state.diagnostics
  match r.outcome with
  | .ok () => return 0
  | .error e =>
    IO.eprintln ("error: " ++ e.message)
    return 1

end Autodoc.Program

def main (args : List String) : IO UInt32 :=
  match Autodoc.CommandLine.Command.ofArguments args with
  | .ok command => Autodoc.Program.run command
  | .error .usage => do
    IO.eprint Autodoc.Program.usage
    return 2
  | .error .help => do
    IO.print Autodoc.Program.usage
    return 0
  | .error .version => do
    IO.println "autodoc 0.1.0"
    return 0
