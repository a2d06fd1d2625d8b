namespace Autodoc

inductive FileError where
  | notFound
  | alreadyThere
  | notDirectory
  | isDirectory
  | nameTooLong
  | notText
  | nameWithNul
  deriving DecidableEq

def FileError.message : FileError → String
  | notFound => "No such file or directory (os error 2)"
  | alreadyThere => "File exists (os error 17)"
  | notDirectory => "Not a directory (os error 20)"
  | isDirectory => "Is a directory (os error 21)"
  | nameTooLong => "File name too long (os error 36)"
  | notText => "stream did not contain valid UTF-8"
  | nameWithNul => "file name contained an unexpected NUL byte"

def splitPath (path : String) : List String :=
  (path.toList.splitOn '/').map String.ofList

/-- A name added to a path. An absolute name stands alone, and an empty path adds nothing. -/
def joinPath (dir name : String) : String :=
  if name.startsWith "/" || dir.isEmpty then name
  else if dir.endsWith "/" then dir ++ name
  else dir ++ "/" ++ name

def parentPath? (path : String) : Option String :=
  let absolute := path.startsWith "/"
  let parts := splitPath path
  let leadingDot := parts.head? = some "."
  let names := parts.filter fun p => p ≠ "" ∧ p ≠ "."
  let names := if leadingDot then "." :: names else names
  if names.isEmpty then none
  else some ((if absolute then "/" else "") ++ "/".intercalate names.dropLast)

abbrev Place := List String

inductive Entry where
  | file (data : ByteArray)
  | directory

structure FileTree where
  here : Place
  entries : List (Place × Entry)

namespace FileTree

/-- An empty tree, whose top is the working directory. -/
def empty : FileTree := ⟨[], []⟩

def find? (t : FileTree) (p : Place) : Option Entry :=
  if p.isEmpty then some .directory else t.entries.lookup p

def put (t : FileTree) (p : Place) (e : Entry) : FileTree :=
  { t with entries := (p, e) :: t.entries.filter (·.1 ≠ p) }

def step (t : FileTree) (p : Place) (name : String) : Except FileError Place :=
  match t.find? p with
  | none => .error .notFound
  | some (.file _) => .error .notDirectory
  | some .directory =>
    if name = "" ∨ name = "." then .ok p
    else if name = ".." then .ok p.dropLast
    else if 255 < name.utf8ByteSize then .error .nameTooLong
    else .ok (p ++ [name])

def start (t : FileTree) (path : String) : Place := if path.startsWith "/" then [] else t.here

/-- The place that a path names; every directory on the way has to exist. -/
def resolve (t : FileTree) (path : String) : Except FileError Place :=
  if path.toList.contains '\x00' then .error .nameWithNul
  else if path.isEmpty then .error .notFound
  else if 4096 ≤ path.utf8ByteSize then .error .nameTooLong
  else (splitPath path).foldlM t.step (t.start path)

def withoutSlash (path : String) : String :=
  let cs := path.toList.reverse.dropWhile (· = '/')
  if cs.isEmpty then path else String.ofList cs.reverse

/-- Whether the last part of a path is a name, and not a way to say a directory. -/
def endsInName (path : String) : Bool :=
  !(["", ".", ".."].contains ((splitPath path).getLast?.getD ""))

def read (t : FileTree) (path : String) : Except FileError ByteArray :=
  match t.resolve path with
  | .error e => .error e
  | .ok p =>
    match t.find? p with
    | none => .error .notFound
    | some .directory => .error .isDirectory
    | some (.file data) => .ok data

def readText (t : FileTree) (path : String) : Except FileError String :=
  match t.read path with
  | .error e => .error e
  | .ok data =>
    match String.fromUTF8? data with
    | some s => .ok s
    | none => .error .notText

def isDirectory (t : FileTree) (path : String) : Bool :=
  match t.resolve path with
  | .error _ => false
  | .ok p => t.find? p matches some .directory

def holds (t : FileTree) (path : String) : Bool :=
  match t.resolve path with
  | .error _ => false
  | .ok p => (t.find? p).isSome

def namesIn (t : FileTree) (path : String) : List String :=
  match t.resolve path with
  | .error _ => []
  | .ok p =>
    t.entries.filterMap fun (q, _) =>
      if q ≠ [] ∧ q.dropLast = p then q.getLast? else none

def write (t : FileTree) (path : String) (data : ByteArray) : Except FileError FileTree :=
  match t.resolve (withoutSlash path) with
  | .error e => .error e
  | .ok p =>
    if !endsInName path then .error .isDirectory
    else
      match t.find? p with
      | some .directory => .error .isDirectory
      | _ => .ok (t.put p (.file data))

def makeDirectory (t : FileTree) (path : String) : Except FileError FileTree :=
  match t.resolve (withoutSlash path) with
  | .error e => .error e
  | .ok p =>
    if !endsInName (withoutSlash path) then .error .alreadyThere
    else
      match t.find? p with
      | some _ => .error .alreadyThere
      | none => .ok (t.put p .directory)

/-- Makes a directory, after those above it where they are missing; `fuel` bounds how many. A failure may
leave some of them made. -/
def makeDirectoriesIn (t : FileTree) : Nat → String → FileTree × Except FileError Unit
  | 0, _ => (t, .error .notFound)
  | fuel + 1, path =>
    let again (t : FileTree) : FileTree × Except FileError Unit :=
      match t.makeDirectory path with
      | .ok t => (t, .ok ())
      | .error e => (t, if t.isDirectory path then .ok () else .error e)
    if path.isEmpty then (t, .ok ())
    else
      match t.makeDirectory path, parentPath? path with
      | .error .notFound, some parent =>
        match makeDirectoriesIn t fuel parent with
        | (t, .ok ()) => again t
        | (t, .error e) => (t, .error e)
      | .error .notFound, none => (t, .error .notFound)
      | _, _ => again t

def makeDirectories (t : FileTree) (path : String) : FileTree × Except FileError Unit :=
  t.makeDirectoriesIn (path.length + 1) path

/-- Everything below the working directory, by path; the path of a directory ends in a slash. -/
def listing (t : FileTree) : List (String × Entry) :=
  let below := t.entries.filterMap fun (p, e) =>
    if t.here.isPrefixOf p ∧ p ≠ t.here then
      let path := "/".intercalate (p.drop t.here.length)
      some (if e matches .directory then path ++ "/" else path, e)
    else none
  below.mergeSort fun a b => a.1 ≤ b.1

end FileTree

end Autodoc
