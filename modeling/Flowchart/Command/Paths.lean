import Flowchart.Text.Search

/-!
# File names

A path is a list of components between slashes. The names of the files for several diagrams are
built from one path: if it is a folder, they are numbered files in it, and otherwise its last
component is numbered.
-/

namespace Flowchart.Command

/-- The components of a path. Empty ones, and dots after the first component, do not count. -/
def pathComponents (path : String) : List String :=
  let parts := (path.toList.splitOnP (· == '/')).map String.ofList
  match parts with
  | first :: rest =>
    (if first.isEmpty then [] else [first]) ++ rest.filter fun p => !p.isEmpty && p != "."
  | [] => []

/-- The last component of a path, if it names something. -/
def fileName? (path : String) : Option String :=
  match (pathComponents path).getLast? with
  | some "." | some ".." | none => none
  | some name => some name

/-- A file name cut at its last dot. A dot at the start does not count. -/
def splitName (name : String) : String × Option String :=
  match Text.splitAtLastChar? (· == '.') name.toList with
  | some (c :: before, after) => (String.ofList (c :: before), some (String.ofList after))
  | _ => (name, none)

/-- The ending of a file name. -/
def extension? (path : String) : Option String :=
  (fileName? path).bind fun name => (splitName name).2

/-- The last component of a path without its ending. -/
def stem? (path : String) : Option String := (fileName? path).map fun name => (splitName name).1

/-- A name put into a folder; the empty path is the current one. -/
def inFolder (folder name : String) : String :=
  if folder.isEmpty || folder.endsWith "/" then folder ++ name else folder ++ "/" ++ name

/-- The characters of a path before its last component, without slashes at their end. -/
def beforeLast (path : String) : List Char :=
  let body := Text.dropBack (· == '/') path.toList
  Text.dropBack (· == '/') ((body.reverse.dropWhile (· != '/')).reverse)

/-- The folder that a path lies in. A path without components lies in the current folder. -/
def parentFolder (path : String) : String :=
  if (pathComponents path).isEmpty then "."
  else
    match beforeLast path with
    | [] => if path.startsWith "/" then "/" else ""
    | cs => String.ofList cs

/-- The files for several diagrams, numbered from one. -/
def numberedPaths (base : String) (isFolder : Bool) (ending : String) (count : Nat) :
    List String :=
  let numbers := (List.range count).map fun i => toString (i + 1) ++ "." ++ ending
  if isFolder then numbers.map fun n => inFolder base ("diagram-" ++ n)
  else
    let stem := (stem? base).getD "diagram"
    numbers.map fun n => inFolder (parentFolder base) (stem ++ "-" ++ n)

end Flowchart.Command
