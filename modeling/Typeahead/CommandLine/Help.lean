import Typeahead.CommandLine.Arguments

/-!
# Help texts

What the program prints when help is asked for.
-/

namespace Typeahead.CommandLine

/-- The name of the program. -/
def programName : String := "autosuggest"

/-- The version of the program. -/
def programVersion : String := "0.9.0"

/-- The commands and what they do. -/
def commandHelp : List String :=
  ["Commands:",
   "  version  Show version information",
   "  config   Show configuration",
   "  help     Print this message or the help of the given subcommand(s)"]

/-- The options of the program and what they do. -/
def optionHelp (long : Bool) : List (String × String) :=
  [("  -g, --grammar <FILE>", "Grammar definition file (TOML)"),
   ("      --case <CASE>", "Case preference for suggestions (upper, lower, as-is)"),
   ("  -c, --config <FILE>", "Configuration file path"),
   ("      --format <FORMAT>", "Output format (plain, json)"),
   ("      --no-color", "Disable colored output"),
   ("  -q, --quiet", "Quiet mode (minimal output)"),
   ("  -v, --verbose", "Verbose mode (detailed logging)"),
   ("      --vv", "Very verbose mode (trace logging)"),
   ("  -h, --help", if long then "Print help (see a summary with '-h')" else "Print help (see more with '--help')"),
   ("  -V, --version", "Print version")]

/-- A text followed by blanks up to a width. -/
def padTo (width : Nat) (s : String) : String := s ++ String.ofList (List.replicate (width - s.length) ' ')

/-- Names and texts in two columns. -/
def columns (entries : List (String × String)) : List String :=
  let width := (entries.map (·.1.length)).foldl max 0
  entries.map fun (name, text) => padTo width name ++ "  " ++ text

/-- Names with their texts below them, and an empty line between two entries. -/
def paragraphs (entries : List (String × String)) : List String :=
  ["\n\n".intercalate (entries.map fun (name, text) => name ++ "\n          " ++ text)]

/-- The help text on a topic. -/
def helpText : HelpTopic → Bool → String
  | .program, long =>
    let about :=
      if long then
        ["Suggests the tokens that may legally follow a partially typed input,",
         "computed from a grammar. Without INPUT an interactive shell with Tab completion is started."]
      else ["Grammar-driven autocomplete"]
    let entries := if long then paragraphs else columns
    "\n".intercalate
      (about ++ ["", "Usage: autosuggest [OPTIONS] [INPUT] [COMMAND]", ""] ++ commandHelp ++ ["", "Arguments:"] ++
        entries [("  [INPUT]", "Partial input to complete (interactive mode when omitted)")] ++ ["", "Options:"] ++
        entries (optionHelp long)) ++ "\n"
  | .versionCommand, _ =>
    "\n".intercalate
      ["Show version information", "", "Usage: autosuggest version", "", "Options:", "  -h, --help  Print help"] ++ "\n"
  | .configCommand, _ =>
    "\n".intercalate
      (["Show configuration", "", "Usage: autosuggest config [OPTIONS]", "", "Options:"] ++
        columns
          [("      --show", "Show effective configuration"), ("      --validate", "Validate configuration file"),
           ("  -h, --help", "Print help")]) ++ "\n"
  | .helpCommand, _ =>
    "\n".intercalate
      ["Print this message or the help of the given subcommand(s)", "", "Usage: autosuggest help [COMMAND]...", "",
       "Arguments:", "  [COMMAND]...  Print help for the subcommand(s)"] ++ "\n"

end Typeahead.CommandLine
