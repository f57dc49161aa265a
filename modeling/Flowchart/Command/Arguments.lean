import Flowchart.Diagram.Direction

/-!
# Command line arguments

Options have a short name, a long name or both. The value of an option is the rest of its argument
or the next argument; an argument that starts with a dash is an option and never a value, a single
dash excepted. Short options without values can be joined in one argument. Every option but the one
for verbosity is given at most once, and there are no arguments but options. Arguments are dealt
with from left to right, and the first fault, or the first request for the help or the version text,
ends it.
-/

namespace Flowchart.Command

/-- What is written. -/
inductive Format where
  | svg
  | json
  | png
  deriving Repr, DecidableEq, Inhabited

namespace Format

/-- The name of a format, which is also the ending of its files. -/
def extension : Format → String
  | svg => "svg"
  | json => "json"
  | png => "png"

/-- The format of a given name. -/
def ofName? (name : String) : Option Format := [svg, json, png].find? (·.extension == name)

end Format

/-- What the command line asks for. -/
structure Arguments where
  /-- file to read, standard input when missing -/
  input : Option String := none
  /-- file to write, standard output when missing -/
  output : Option String := none
  /-- what to write -/
  format : Option Format := none
  /-- settings file -/
  config : Option String := none
  /-- name of a theme -/
  theme : Option String := none
  /-- direction that replaces the one of the diagram -/
  direction : Option Direction := none
  /-- draw smooth curves -/
  curved : Bool := false
  /-- file for a snapshot of the layout -/
  dump : Option String := none
  /-- how much is logged -/
  verbosity : Nat := 0
  deriving Repr, DecidableEq, Inhabited

/-- Why the arguments were not read to their end. -/
inductive Stop where
  /-- they are wrong -/
  | usage
  /-- the help text is asked for -/
  | help
  /-- the version is asked for -/
  | version
  deriving Repr, DecidableEq

/-- An option. -/
inductive Opt where
  | input
  | output
  | format
  | config
  | theme
  | direction
  | curved
  | dump
  | verbose
  | help
  | version
  deriving Repr, DecidableEq

namespace Opt

/-- The option of a long name. -/
def ofLong? : String → Option Opt
  | "input" => some input
  | "output" => some output
  | "outputFormat" => some format
  | "configFile" => some config
  | "theme" => some theme
  | "direction" => some direction
  | "curved" => some curved
  | "dumpLayout" => some dump
  | "verbose" => some verbose
  | "help" => some help
  | "version" => some version
  | _ => none

/-- The option of a short name. -/
def ofShort? : Char → Option Opt
  | 'i' => some input
  | 'o' => some output
  | 'e' => some format
  | 'c' => some config
  | 't' => some theme
  | 'd' => some direction
  | 'v' => some verbose
  | 'h' => some help
  | 'V' => some version
  | _ => none

/-- The option has a value. -/
def takesValue : Opt → Bool
  | input | output | format | config | theme | direction | dump => true
  | curved | verbose | help | version => false

end Opt

namespace Arguments

/-- Sets something that must not be set yet. -/
def once {β : Type} (old : Option β) (value : Option β) : Except Stop (Option β) :=
  match old, value with
  | none, some v => .ok (some v)
  | _, _ => .error .usage

/-- A file name, which must not be empty. -/
def fileName? (value : String) : Option String := if value.isEmpty then none else some value

/-- Gives an option its value. -/
def setValue (a : Arguments) (value : String) : Opt → Except Stop Arguments
  | .input => (once a.input (fileName? value)).map fun v => { a with input := v }
  | .output => (once a.output (fileName? value)).map fun v => { a with output := v }
  | .format => (once a.format (Format.ofName? value)).map fun v => { a with format := v }
  | .config => (once a.config (fileName? value)).map fun v => { a with config := v }
  | .theme => (once a.theme (some value)).map fun v => { a with theme := v }
  | .direction => (once a.direction (Direction.ofToken? value)).map fun v =>
    { a with direction := v }
  | .dump => (once a.dump (fileName? value)).map fun v => { a with dump := v }
  | .curved | .verbose | .help | .version => .error .usage

/-- Takes an option without a value. -/
def setFlag (a : Arguments) : Opt → Except Stop Arguments
  | .curved => if a.curved then .error .usage else .ok { a with curved := true }
  | .verbose => .ok { a with verbosity := a.verbosity + 1 }
  | .help => .error .help
  | .version => .error .version
  | _ => .error .usage

/-- What is left after an argument: nothing, or an option that waits for its value. -/
abbrev Pending := Option Opt

/-- Reads the options joined in one argument after its dash. -/
def readShorts (a : Arguments) : List Char → Except Stop (Arguments × Pending)
  | [] => .ok (a, none)
  | c :: rest =>
    match Opt.ofShort? c with
    | none => .error .usage
    | some o =>
      if o.takesValue then
        match rest with
        | [] => .ok (a, some o)
        | '=' :: value => (a.setValue (String.ofList value) o).map fun a => (a, none)
        | value => (a.setValue (String.ofList value) o).map fun a => (a, none)
      else
        match a.setFlag o with
        | .error e => .error e
        | .ok a => readShorts a rest

/-- Reads the argument after two dashes. -/
def readLong (a : Arguments) (cs : List Char) : Except Stop (Arguments × Pending) :=
  let name := String.ofList (cs.takeWhile (· != '='))
  match Opt.ofLong? name, cs.dropWhile (· != '=') with
  | none, _ => .error .usage
  | some o, [] => if o.takesValue then .ok (a, some o) else (a.setFlag o).map fun a => (a, none)
  | some o, _ :: value => (a.setValue (String.ofList value) o).map fun a => (a, none)

/-- Reads arguments one after the other. After a double dash only values that belong to no option
can follow, and there are none. -/
def readAll (a : Arguments) : Pending → List String → Except Stop Arguments
  | none, [] => .ok a
  | some _, [] => .error .usage
  | pending, arg :: rest =>
    match pending, arg.toList with
    | none, ['-', '-'] => if rest.isEmpty then .ok a else .error .usage
    | none, '-' :: '-' :: cs =>
      match a.readLong cs with
      | .error e => .error e
      | .ok (a, pending) => readAll a pending rest
    | none, '-' :: c :: cs =>
      match a.readShorts (c :: cs) with
      | .error e => .error e
      | .ok (a, pending) => readAll a pending rest
    | none, _ => .error .usage
    | some _, '-' :: _ :: _ => .error .usage
    | some o, cs =>
      match a.setValue (String.ofList cs) o with
      | .error e => .error e
      | .ok a => readAll a none rest

/-- Reads a command line, the name of the program left out. -/
def ofList (args : List String) : Except Stop Arguments := readAll {} none args

end Arguments

end Flowchart.Command
