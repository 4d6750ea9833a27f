import Typeahead.Display.Report

/-!
# Settings

The settings of the program.  Every one has a default, so a file may give any part of them.
-/

namespace Typeahead

/-- How much is logged. -/
inductive LogLevel where
  | error
  | warn
  | info
  | debug
  | trace
  deriving Repr, DecidableEq

/-- The name under which a level is configured. -/
def LogLevel.name : LogLevel → String
  | error => "error"
  | warn => "warn"
  | info => "info"
  | debug => "debug"
  | trace => "trace"

/-- The level with a name. -/
def LogLevel.ofName? : String → Option LogLevel
  | "error" => some error
  | "warn" => some warn
  | "info" => some info
  | "debug" => some debug
  | "trace" => some trace
  | _ => none

/-- The name under which an output format is configured. -/
def OutputFormat.name : OutputFormat → String
  | plain => "plain"
  | json => "json"

/-- The output format with a name. -/
def OutputFormat.ofName? : String → Option OutputFormat
  | "plain" => some plain
  | "json" => some json
  | _ => none

/-- The case preference with exactly the configured name. -/
def CasePreference.ofExactName? : String → Option CasePreference
  | "upper" => some upper
  | "lower" => some lower
  | "as-is" => some asIs
  | _ => none

/-- Settings of completion. -/
structure SuggestSettings where
  casePreference : CasePreference := .asIs
  limits : Limits := {}
  /-- The file of the grammar; the sample grammar if there is none. -/
  grammar : Option String := none
  deriving Repr, DecidableEq

/-- Settings of the input history. -/
structure HistorySettings where
  maxSize : Nat := 1000
  filePath : String
  persist : Bool := true
  deriving Repr, DecidableEq

/-- Settings of the log. -/
structure LogSettings where
  level : LogLevel := .warn
  timestamps : Bool := false
  deriving Repr, DecidableEq

/-- All settings. -/
structure Settings where
  suggest : SuggestSettings
  display : OutputStyle
  history : HistorySettings
  logging : LogSettings
  deriving Repr, DecidableEq

/-- The path of a name inside a directory. -/
def joinPath (directory name : String) : String :=
  if directory.isEmpty then name
  else if directory.endsWith "/" then directory ++ name
  else directory ++ "/" ++ name

/-- What can be wrong with settings. -/
inductive SettingsError where
  | fileNotFound (path : String)
  | invalidFormat (detail : String)
  | invalidValue (field value : String)
  deriving Repr, DecidableEq

/-- The wording of a settings error. -/
def SettingsError.message : SettingsError → String
  | fileNotFound path => s!"Configuration error: Config file not found: {path}"
  | invalidFormat detail => s!"Configuration error: Invalid config format: {detail}"
  | invalidValue field value => s!"Configuration error: Invalid value '{value}' for field '{field}'"

namespace Settings

/-- The default history file of a user with the given home directory. -/
def historyFile (home : String) : String := joinPath home ".autosuggest_history"

/-- Where the settings of a user are looked for. -/
def defaultPath (home : String) : String := joinPath (joinPath home ".autosuggest") "config.toml"

/-- The default settings. -/
def standard (home : String) : Settings :=
  { suggest := {}, display := ⟨.plain, true⟩, history := { filePath := historyFile home }, logging := {} }

/-- Checks the settings: the limits must not be zero, nor the size of a history that is kept. -/
def validate (s : Settings) : Except SettingsError Unit :=
  if s.suggest.limits.reentry = 0 then .error (.invalidValue "suggest.max_rule_reentry" "0")
  else if s.suggest.limits.configurations = 0 then .error (.invalidValue "suggest.max_configurations" "0")
  else if s.history.maxSize = 0 ∧ s.history.persist then .error (.invalidValue "history.max_size" "0")
  else .ok ()

/-- The options of a request under these settings. -/
def options (s : Settings) : Options := ⟨s.suggest.casePreference, s.suggest.limits⟩

end Settings

end Typeahead
