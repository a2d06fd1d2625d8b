import Autodoc.Emission

namespace Autodoc

inductive FileStatus where
  | fresh
  | stale
  | missing
  deriving DecidableEq

def FileStatus.name : FileStatus → String
  | fresh => "fresh"
  | stale => "stale"
  | missing => "missing"

namespace EmittedFile

def path (f : EmittedFile) (dir : String) : String := joinPath dir f.fileName

/-- Makes the directory where it is missing and writes the whole file. -/
def write (f : EmittedFile) (dir : String) : Action FileTree GenerateError Unit := do
  .note .info ("Generating " ++ f.path dir ++ " ...") []
  fun t =>
    match t.makeDirectories dir with
    | (t, .error e) => ⟨[], t, .error (.file dir e)⟩
    | (t, .ok ()) =>
      match t.write (f.path dir) f.contents.toUTF8 with
      | .error e => ⟨[], t, .error (.file (f.path dir) e)⟩
      | .ok t => ⟨[], t, .ok ()⟩

def status (f : EmittedFile) (dir : String) (t : FileTree) : Except GenerateError FileStatus :=
  match t.readText (f.path dir) with
  | .ok text => .ok (if text = f.contents then .fresh else .stale)
  | .error .notFound => .ok .missing
  | .error e => .error (.file (f.path dir) e)

end EmittedFile

def writeSink (dir : String) : Sink FileTree := fun f => f.write dir

/-- What a check keeps: the files it reads, and each file's status, in order. -/
structure Check where
  tree : FileTree
  statuses : List (String × FileStatus)

def checkSink (dir : String) : Sink Check := fun f k =>
  match f.status dir k.tree with
  | .error e => ⟨[], k, .error e⟩
  | .ok s => ⟨[], { k with statuses := k.statuses ++ [(f.fileName, s)] }, .ok ()⟩

end Autodoc
