import Flowchart.Command.Paths

/-!
# Files

All that the program needs of a file system: reading a text, writing a text and telling folders from
files. The program is written over any monad that offers the three. `Folder` is a model of a file
system as a value, in which runs of the program can be observed and compared.
-/

namespace Flowchart.Command

/-- Why a file could not be read or written. -/
inductive FileError where
  /-- it, or a folder on the way to it, does not exist -/
  | notFound
  /-- it is a folder -/
  | isFolder
  /-- a file stands where a folder is needed -/
  | notFolder
  /-- another cause, told by the system -/
  | other (message : String)
  deriving Repr, DecidableEq

/-- The message of an error. -/
def FileError.message : FileError → String
  | notFound => "No such file or directory (os error 2)"
  | isFolder => "Is a directory (os error 21)"
  | notFolder => "Not a directory (os error 20)"
  | other message => message

/-- Access to files. -/
class FileAccess (m : Type → Type) where
  /-- the text of a file -/
  read : String → m (Except FileError String)
  /-- makes a file, or replaces the text of one -/
  write : String → String → m (Except FileError Unit)
  /-- the path leads to a folder -/
  isFolder : String → m Bool

/-! ## Files as a value -/

/-- The files and folders below one folder. Each is known by the components of its path. -/
structure Folder where
  /-- the files with their texts -/
  files : List (List String × String) := []
  /-- the folders, the outermost one left out -/
  folders : List (List String) := []
  deriving Inhabited

namespace Folder

/-- The outermost folder and all known ones are folders. -/
def hasFolder (f : Folder) (place : List String) : Bool :=
  place.isEmpty || f.folders.contains place

/-- The text of a file. -/
def text? (f : Folder) (place : List String) : Option String := f.files.lookup place

/-- Follows the components of a path from a folder on. All but the last one have to be folders, and
a double dot leads back to the folder around. -/
def walk (f : Folder) (place : List String) : List String → Except FileError (List String)
  | [] => .ok place
  | c :: rest =>
    if f.hasFolder place then
      walk f (if c == "." then place else if c == ".." then place.dropLast else place ++ [c]) rest
    else if (f.text? place).isSome then .error .notFolder
    else .error .notFound

/-- The place that a path leads to. Paths that start with a slash leave the model. -/
def resolve (f : Folder) (path : String) : Except FileError (List String) :=
  if path.isEmpty || path.startsWith "/" then .error .notFound
  else f.walk [] (pathComponents path)

/-- The text of the file that a path leads to. -/
def read (f : Folder) (path : String) : Except FileError String := do
  let place ← f.resolve path
  match f.text? place with
  | some text => if path.endsWith "/" then .error .notFolder else .ok text
  | none => .error (if f.hasFolder place then .isFolder else .notFound)

/-- The folder with a file made or replaced. -/
def write (f : Folder) (path text : String) : Except FileError Folder := do
  let place ← f.resolve path
  if f.hasFolder place || path.endsWith "/" then .error .isFolder
  else .ok { f with files := f.files.filter (·.1 != place) ++ [(place, text)] }

/-- The path leads to a folder. -/
def isFolder (f : Folder) (path : String) : Bool :=
  match f.resolve path with
  | .ok place => f.hasFolder place
  | .error _ => false

/-- Access to the files of the model. -/
instance : FileAccess (StateM Folder) where
  read path := do return (← get).read path
  write path text := do
    match (← get).write path text with
    | .ok f => set f; return .ok ()
    | .error e => return .error e
  isFolder path := do return (← get).isFolder path

end Folder

end Flowchart.Command
