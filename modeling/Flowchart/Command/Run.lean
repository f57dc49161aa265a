import Flowchart.Command.Arguments
import Flowchart.Command.Fences
import Flowchart.Command.Files
import Flowchart.Command.Help
import Flowchart.Layout.Snapshot
import Flowchart.Render

/-!
# A run of the program

The settings file is read first and then the input, which holds one diagram or, in a text with
fenced blocks, any number of them. Each diagram is parsed, laid out and written; the first fault
ends the run, and what was written before stays. Several diagrams go to numbered files.
-/

namespace Flowchart.Command

/-- Why a run failed. -/
inductive RunError where
  /-- the settings file could not be read -/
  | configFile (path : String) (cause : FileError)
  /-- the settings file holds no settings -/
  | configText (path : String) (problem : Json.Problem)
  /-- the input could not be read -/
  | input (path : String) (cause : FileError)
  /-- there is no diagram in the input -/
  | noDiagrams
  /-- several diagrams and no file name -/
  | outputForSeveral
  /-- a raster picture and no file name -/
  | outputForPng
  /-- raster pictures are not made -/
  | pngUnsupported
  /-- a diagram could not be turned into a picture -/
  | render (cause : RenderError)
  /-- the output could not be written -/
  | output (cause : FileError)
  /-- the snapshot could not be written -/
  | dump (path : String) (cause : FileError)
  /-- a fault in one of several diagrams, counted from one -/
  | inDiagram (number : Nat) (cause : RunError)
  deriving Repr, DecidableEq

/-- A quoted file name. -/
def quotedPath (path : String) : String := Text.shown ['"', '\''] path

/-- The message of a cause that is reported by the one who met it and again on its own. -/
def twice (kind message : String) : String := kind ++ " error: " ++ message ++ ": " ++ message

/-- The message of an error: what was tried, then the causes. -/
def RunError.message : RunError → String
  | configFile path cause =>
    "loading config Some(" ++ quotedPath path ++ "): " ++ twice "io" cause.message
  | configText path problem =>
    "loading config Some(" ++ quotedPath path ++ "): " ++ twice "json" problem.message
  | input path cause => "reading " ++ path ++ ": " ++ cause.message
  | noDiagrams => "No Mermaid diagrams found in input"
  | outputForSeveral => "Output path required for markdown input"
  | outputForPng => "Output path required for png output"
  | pngUnsupported => "PNG output requires the `png` feature; rebuild with --features png"
  | render cause => cause.message
  | output cause => twice "io" cause.message
  | dump path cause => "writing layout dump " ++ path ++ ": " ++ twice "io" cause.message
  | inDiagram number cause => "diagram " ++ toString number ++ ": " ++ cause.message

/-- How a run ended. -/
structure Outcome where
  /-- exit code -/
  exitCode : Nat
  /-- text for standard output -/
  output : String
  /-- why it failed, if it did -/
  failure : Option RunError
  deriving Inhabited

section

variable {m : Type → Type} [Monad m] [FileAccess m]

/-- A step of a run: it may fail. -/
abbrev Step (m : Type → Type) := ExceptT RunError m

/-- Reads a file. -/
def readFile (path : String) (onError : FileError → RunError) : Step m String := do
  match ← (FileAccess.read path : m _) with
  | .ok text => return text
  | .error e => throw (onError e)

/-- Writes a file. -/
def writeFile (path text : String) (onError : FileError → RunError) : Step m Unit := do
  match ← (FileAccess.write path text : m _) with
  | .ok _ => return ()
  | .error e => throw (onError e)

/-- The settings to start from. -/
def baseSettings (config : Option String) : Step m (Settings Float32) := do
  match config with
  | none => return .standard
  | some path =>
    let text ← readFile path (.configFile path)
    match SettingsLayer.ofText text with
    | .ok layer => return Settings.standard.withLayer layer
    | .error problem => throw (.configText path problem)

/-- The path names a text with fenced blocks. -/
def isProse (path : String) : Bool :=
  match extension? path with
  | some e => e == "md" || e == "markdown"
  | none => false

/-- The diagrams of the input. -/
def readDiagrams (input : Option String) (stdin : m String) : Step m (List String) := do
  match input with
  | none | some "-" => return [← stdin]
  | some path =>
    let text ← readFile path (.input path)
    return if isProse path then fencedDiagrams text else [text]

/-- Where the results for one diagram go. -/
structure Targets where
  /-- file for the picture, standard output when missing -/
  output : Option String
  /-- file for the snapshot, if one is wanted -/
  dump : Option String
  deriving Inhabited

/-- Writes a result. What goes to standard output is returned. -/
def deliver (text : String) : Option String → Step m String
  | none => return text
  | some path => do
    writeFile path text .output
    return ""

/-- Turns one diagram into its results. -/
def runOne (base : Settings Float32) (options : CallerOptions Float32) (format : Format)
    (targets : Targets) (text : String) : Step m String := do
  match layoutText base options .estimated text with
  | .error e => throw (.render e)
  | .ok (l, s) =>
    if let some path := targets.dump then writeFile path l.snapshot (.dump path)
    match format, targets.output with
    | .json, output => deliver l.snapshot output
    | .svg, output => deliver (l.toSvg s.theme s.drawing) output
    | .png, none => throw .outputForPng
    | .png, some _ => throw .pngUnsupported

/-- The files for several diagrams. -/
def severalPaths (base : String) (format : Format) (count : Nat) : Step m (List String) := do
  let isFolder ← (FileAccess.isFolder base : m Bool)
  return numberedPaths base isFolder format.extension count

/-- Turns several diagrams into their results; `first` is the number of the first one. -/
def runEach (base : Settings Float32) (options : CallerOptions Float32) (format : Format) :
    (first : Nat) → List (String × Targets) → Step m Unit
  | _, [] => return ()
  | n, (text, targets) :: rest => do
    let _ ← ExceptT.adapt (RunError.inDiagram n) (runOne base options format targets text)
    runEach base options format (n + 1) rest

/-- Turns several diagrams into numbered files. -/
def runSeveral (base : Settings Float32) (options : CallerOptions Float32) (a : Arguments)
    (format : Format) (texts : List String) : Step m Unit := do
  match a.output with
  | none => throw .outputForSeveral
  | some path =>
    let outputs ← severalPaths path format texts.length
    let dumps ← match a.dump with
      | none => pure (texts.map fun _ => none)
      | some path => (·.map some) <$> severalPaths path .json texts.length
    let targets := outputs.zipWith (fun o d => (⟨some o, d⟩ : Targets)) dumps
    runEach base options format 1 (texts.zip targets)

/-- Does what the arguments ask for. Returns the text for standard output. -/
def runArguments (a : Arguments) (stdin : m String) : Step m String := do
  let base ← baseSettings a.config
  let options : CallerOptions Float32 :=
    { direction := a.direction, theme := a.theme, curved := a.curved }
  let format := a.format.getD .svg
  match ← readDiagrams a.input stdin with
  | [] => throw .noDiagrams
  | [text] => runOne base options format ⟨a.output, a.dump⟩ text
  | texts =>
    runSeveral base options a format texts
    return ""

/-- Runs the program. -/
def run (args : List String) (stdin : m String) : m Outcome := do
  match Arguments.ofList args with
  | .error .usage => return ⟨2, "", none⟩
  | .error .help => return ⟨0, helpText, none⟩
  | .error .version => return ⟨0, versionText, none⟩
  | .ok a =>
    match ← (runArguments a stdin).run with
    | .ok output => return ⟨0, output, none⟩
    | .error e => return ⟨1, "", some e⟩

end

end Flowchart.Command
