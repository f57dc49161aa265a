/-!
# Texts about the program

The help text lists all options, each one with a line that says what it does.
-/

namespace Flowchart.Command

/-- The text for the version option. -/
def versionText : String := "mmle 0.1.0\n"

/-- The options with what they do, in the order of the help text. -/
def optionHelp : List (String × String) :=
  [("-i, --input <INPUT>", "Input file (.mmd or .md) or '-' for stdin"),
    ("-o, --output <OUTPUT>", "Output file. SVG and JSON go to stdout when omitted"),
    ("-e, --outputFormat <OUTPUT_FORMAT>",
      "Output format [default: svg] [possible values: svg, json, png]"),
    ("-c, --configFile <CONFIG>",
      "Config JSON file (camelCase keys, Mermaid-like themeVariables)"),
    ("-t, --theme <THEME>",
      "Theme name (default, dark, forest, neutral, base, mermaid, mermaid-dark)"),
    ("-d, --direction <DIRECTION>", "Direction override (TB, TD, BT, LR, RL)"),
    ("    --curved", "Draw edges as smooth curves instead of orthogonal polylines"),
    ("    --dumpLayout <DUMP_LAYOUT>", "Also write the positioned layout as JSON to this path"),
    ("-v, --verbose...",
      "More logging (-v info, -vv debug, -vvv trace). RUST_LOG wins when set"),
    ("-h, --help", "Print help"),
    ("-V, --version", "Print version")]

/-- The text for the help option. -/
def helpText : String :=
  "Layered layout engine for Mermaid-style flowcharts\n\nUsage: mmle [OPTIONS]\n\nOptions:\n"
    ++ String.join (optionHelp.map fun (option, help) =>
      "  " ++ option ++ "\n          " ++ help ++ "\n")

/-- The text for arguments that cannot be understood. -/
def usageText : String :=
  "error: invalid arguments\n\nUsage: mmle [OPTIONS]\n\nFor more information, try '--help'.\n"

end Flowchart.Command
