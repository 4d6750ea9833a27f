import Typeahead.CommandLine.Help
import Typeahead.Grammar.Definition
import Typeahead.Grammar.Sample.HarmonySql
import Typeahead.Settings.File

/-!
# Runs

What the program does with its arguments.  Files are read through `FileReader`, so a run is a function of its
arguments and of the files; `run` works in any monad in which files can be read.
-/

namespace Typeahead

/-- Everything that can go wrong in the program. -/
inductive Failure where
  | request (e : RequestError)
  | grammar (e : GrammarError)
  /-- A definition file does not hold a definition. -/
  | definition (detail : String)
  | settings (e : SettingsError)
  | io (detail : String)
  | lineEditor (detail : String)
  | other (text : String)
  deriving Repr, DecidableEq

/-- The wording of a failure. -/
def Failure.message : Failure → String
  | request e => e.message
  | grammar e => s!"Grammar error: {e.message}"
  | definition detail => s!"Grammar error: Invalid grammar definition: {detail}"
  | settings e => e.message
  | io detail => s!"I/O error: {detail}"
  | lineEditor detail => s!"Readline error: {detail}"
  | other text => text

namespace CommandLine

/-- What is found at a path. -/
inductive FileContent where
  | text (s : String)
  /-- The content cannot be read; `detail` says why. -/
  | unreadable (detail : String)
  deriving Repr, DecidableEq

/-- Reads the file at a path; nothing if there is none. -/
abbrev FileReader (m : Type → Type) := String → m (Option FileContent)

/-- What a run leaves behind. -/
structure Outcome where
  exit : Nat
  stdout : String
  stderr : List String
  deriving Repr, DecidableEq

/-- A session in which inputs are completed one after the other. -/
structure Session where
  grammar : Grammar
  settings : Settings
  banner : List String
  warnings : List String

/-- What comes of the arguments. -/
inductive Reaction where
  | finished (outcome : Outcome)
  | session (s : Session)

/-! ### Arguments over settings -/

/-- The output format with a name in any letter case; unknown names are warned of. -/
def readFormat (name : String) : OutputFormat × List String :=
  match Text.lowercase name with
  | "plain" | "text" => (.plain, [])
  | "json" => (.json, [])
  | _ => (.plain, [s!"Warning: Unknown format '{name}', using default"])

/-- The case preference with a name in any letter case; unknown names are warned of. -/
def readCasePreference (name : String) : CasePreference × List String :=
  match CasePreference.ofName? name with
  | some p => (p, [])
  | none => (.asIs, [s!"Warning: {CasePreference.invalidName name}, using as-is"])

/-- The settings with those that arguments override, and the warnings of doing so. -/
def Arguments.override (args : Arguments) (s : Settings) : Settings × List String :=
  let (case, caseWarnings) := match args.case with
    | some name => readCasePreference name
    | none => (s.suggest.casePreference, [])
  let (format, formatWarnings) := match args.format with
    | some name => readFormat name
    | none => (s.display.format, [])
  let level : LogLevel :=
    if args.veryVerbose then .trace
    else if args.verbose then .debug
    else if args.quiet then .error
    else s.logging.level
  ({ s with
      suggest := { s.suggest with casePreference := case, grammar := args.grammar.or s.suggest.grammar }
      display := ⟨format, s.display.colored && !args.noColor⟩
      logging := { s.logging with level } },
    caseWarnings ++ formatWarnings)

/-! ### Files -/

variable {m : Type → Type} [Monad m]

/-- Loads settings.  A file that is asked for must exist; without one the user's own file is used if there is
one. -/
def loadSettings (home : String) (file : FileReader m) (path : Option String) : m (Except Failure Settings) := do
  match ← file (path.getD (Settings.defaultPath home)) with
  | some (.text s) =>
    match Settings.read home s with
    | .ok settings => pure (.ok settings)
    | .error e => pure (.error (.settings e))
  | some (.unreadable detail) => pure (.error (.io detail))
  | none =>
    match path with
    | some path => pure (.error (.settings (.fileNotFound path)))
    | none => pure (.ok (Settings.standard home))

/-- Builds a grammar. -/
def buildGrammar (d : Declarations) : Except Failure Grammar :=
  match d.build with
  | .ok g => .ok g
  | .error e => .error (.grammar e)

/-- Loads the grammar of the settings. -/
def loadGrammar (file : FileReader m) (s : Settings) : m (Except Failure Grammar) := do
  match s.suggest.grammar with
  | none => pure (buildGrammar Sample.harmonySql)
  | some path =>
    match ← file path with
    | none => pure (.error (.settings (.fileNotFound path)))
    | some (.unreadable detail) => pure (.error (.io detail))
    | some (.text s) =>
      match GrammarDefinition.read? s with
      | none => pure (.error (.definition "the text does not hold a definition"))
      | some d => pure (buildGrammar d.declarations)

/-! ### Commands -/

/-- The lines of a text, each closed by a line end. -/
def unlines (lines : List String) : String := String.join (lines.map (· ++ "\n"))

/-- What the version command shows. -/
def versionLines : List String := [s!"{programName} version {programVersion}", "Rust version: 1.91"]

/-- What is shown of the effective settings. -/
def settingsLines (home path : String) (s : Settings) : List String :=
  [s!"Configuration file: {path}", "", "=== Effective Configuration ===", "", s.render home]

/-- What the check of a settings file shows. -/
def validationLines (home : String) (file : FileReader m) (path : String) : m (List String) := do
  let verdict ← match ← file path with
    | none => pure "❌ Configuration file does not exist"
    | some _ =>
      match ← loadSettings home file (some path) with
      | .error e => pure s!"❌ Failed to load configuration: {e.message}"
      | .ok s =>
        match s.validate with
        | .ok () => pure "✅ Configuration is valid"
        | .error e => pure s!"❌ Configuration validation failed: {e.message}"
  pure [s!"Validating configuration file: {path}", verdict]

/-! ### Runs -/

/-- The answer to one input. -/
def completeInput (g : Grammar) (s : Settings) (input : String) : Outcome :=
  match g.suggest s.options input with
  | .ok r => ⟨0, unlines [s.display.reportText g input r], []⟩
  | .error e => ⟨1, "", [s.display.errorText e.message]⟩

/-- What an interactive session begins with. -/
def bannerLines (args : Arguments) (g : Grammar) : List String :=
  if args.quiet then []
  else
    let rule := (g.ruleName? g.startRule).getD ""
    [s!"{programName} {programVersion}", s!"Grammar: {rule}",
     "Press Tab to complete, Enter to list suggestions, Ctrl+D to exit."]

/-- The outcome of a failure. -/
def failed (warnings : List String) (e : Failure) : Outcome := ⟨1, "", warnings ++ [s!"Error: {e.message}"]⟩

/-- Runs with arguments that have been read. -/
def runWith (home : String) (file : FileReader m) (args : Arguments) : m Reaction := do
  match ← loadSettings home file args.config with
  | .error e => pure (.finished (failed [] e))
  | .ok loaded =>
    let (checked, validationWarnings) := match loaded.validate with
      | .ok () => (loaded, [])
      | .error e =>
        (Settings.standard home,
          [s!"Warning: Configuration validation failed: {e.message}", "Using default configuration instead."])
    let (settings, argumentWarnings) := args.override checked
    let warnings := validationWarnings ++ argumentWarnings
    match args.command with
    | some .version => pure (.finished ⟨0, unlines versionLines, warnings⟩)
    | some (.config showSettings validate) =>
      let path := args.config.getD (Settings.defaultPath home)
      let validation ← if validate then validationLines home file path else pure []
      let shown := if showSettings then settingsLines home path settings else []
      pure (.finished ⟨0, unlines (validation ++ shown), warnings⟩)
    | none =>
      match ← loadGrammar file settings with
      | .error e => pure (.finished (failed warnings e))
      | .ok g =>
        match args.input with
        | none => pure (.session ⟨g, settings, bannerLines args g, warnings⟩)
        | some input =>
          let outcome := completeInput g settings input
          pure (.finished { outcome with stderr := warnings ++ outcome.stderr })

/-- The outcome of arguments that are not those of a run. -/
def usageOutcome : UsageError → Outcome
  | .help topic long => ⟨0, helpText topic long, []⟩
  | .version => ⟨0, unlines [s!"{programName} {programVersion}"], []⟩
  | _ => ⟨2, "", ["error: invalid usage", "", "For more information, try '--help'."]⟩

/-- Runs the program. -/
def run (home : String) (file : FileReader m) (args : List String) : m Reaction :=
  match Arguments.read args with
  | .error e => pure (.finished (usageOutcome e))
  | .ok args => runWith home file args

end CommandLine

end Typeahead
