import Typeahead.CommandLine.Similarity
import Typeahead.Settings.Basic

/-!
# Arguments

Reads the arguments of the program: options, at most one input, and at most one command with options of its own.
An option with a value takes it from the same argument or from the next one.  Such a value is checked only when the
option is closed, that is, when the next option or input comes or the arguments end; an error further to the right
may therefore be reported first.
-/

namespace Typeahead.CommandLine

/-- A command of the program. -/
inductive Command where
  | version
  | config (showSettings validate : Bool)
  deriving Repr, DecidableEq

/-- The arguments of a run. -/
structure Arguments where
  input : Option String := none
  grammar : Option String := none
  case : Option String := none
  config : Option String := none
  format : Option String := none
  noColor : Bool := false
  quiet : Bool := false
  verbose : Bool := false
  veryVerbose : Bool := false
  command : Option Command := none
  deriving Repr, DecidableEq

/-- What a help text is about. -/
inductive HelpTopic where
  | program
  | versionCommand
  | configCommand
  | helpCommand
  deriving Repr, DecidableEq

/-- Why arguments are not those of a run. -/
inductive UsageError where
  /-- Help was asked for; `long` tells whether in detail. -/
  | help (topic : HelpTopic) (long : Bool)
  /-- The version was asked for. -/
  | version
  | unknownArgument
  | invalidCommand
  /-- An option is given twice. -/
  | repeated
  /-- An option lacks its value, or a path is empty. -/
  | invalidValue
  /-- An option without value is given one. -/
  | unexpectedValue
  deriving Repr, DecidableEq

/-- The options of the program and its commands. -/
inductive Opt where
  | grammar
  | case
  | config
  | format
  | noColor
  | quiet
  | verbose
  | veryVerbose
  | showSettings
  | validate
  | help
  | version
  deriving Repr, DecidableEq

namespace Opt

/-- Whether an option takes a value. -/
def takesValue : Opt → Bool
  | grammar | case | config | format => true
  | _ => false

/-- Whether the value of an option is a path, which must not be empty. -/
def isPath : Opt → Bool
  | grammar | config => true
  | _ => false

end Opt

/-- An option with its names. -/
structure OptSpec where
  opt : Opt
  short : Option Char
  long : String
  deriving Repr, DecidableEq

/-- The options of the program. -/
def programOptions : List OptSpec :=
  [⟨.grammar, some 'g', "grammar"⟩, ⟨.case, none, "case"⟩, ⟨.config, some 'c', "config"⟩,
   ⟨.format, none, "format"⟩, ⟨.noColor, none, "no-color"⟩, ⟨.quiet, some 'q', "quiet"⟩,
   ⟨.verbose, some 'v', "verbose"⟩, ⟨.veryVerbose, none, "vv"⟩, ⟨.help, some 'h', "help"⟩,
   ⟨.version, some 'V', "version"⟩]

/-- The options of the command that shows the version. -/
def versionOptions : List OptSpec := [⟨.help, some 'h', "help"⟩]

/-- The options of the command that shows the settings. -/
def configOptions : List OptSpec :=
  [⟨.showSettings, none, "show"⟩, ⟨.validate, none, "validate"⟩, ⟨.help, some 'h', "help"⟩]

/-- The names of the commands. -/
def commandNames : List String := ["version", "config", "help"]

/-- How far the arguments have been read. -/
structure Progress where
  /-- The options that are closed, with their values. -/
  given : List (Opt × String) := []
  /-- The option that is still open, with its value if that has come. -/
  pending : Option (Opt × Option String) := none
  input : Option String := none
  deriving Repr, DecidableEq

namespace Progress

/-- Whether an option has been given. -/
def has (p : Progress) (opt : Opt) : Bool := p.given.any (·.1 = opt)

/-- The value that an option has been given. -/
def value? (p : Progress) (opt : Opt) : Option String := (p.given.find? (·.1 = opt)).map (·.2)

/-- The option that waits for its value in the next argument. -/
def awaiting? (p : Progress) : Option Opt :=
  match p.pending with
  | some (opt, none) => some opt
  | _ => none

/-- Gives an option its value. -/
def give (p : Progress) (opt : Opt) (v : String) : Except UsageError Progress :=
  if p.has opt then .error .repeated
  else if opt.isPath && v.isEmpty then .error .invalidValue
  else .ok { p with given := p.given ++ [(opt, v)] }

/-- Closes the open option. -/
def close (p : Progress) : Except UsageError Progress :=
  match p.pending with
  | none => .ok p
  | some (_, none) => .error .invalidValue
  | some (opt, some v) => { p with pending := none }.give opt v

/-- Closes the open option and gives another its value. -/
def closeAndGive (p : Progress) (opt : Opt) (v : String) : Except UsageError Progress := do
  let p ← p.close
  p.give opt v

/-- Closes the open option and opens another, whose value is to come. -/
def closeAndOpen (p : Progress) (opt : Opt) : Except UsageError Progress := do
  let p ← p.close
  pure { p with pending := some (opt, none) }

/-- Closes the open option and sets one that takes no value. -/
def closeAndSet (topic : HelpTopic) (long : Bool) (p : Progress) (opt : Opt) : Except UsageError Progress := do
  let p ← p.close
  match opt with
  | .help => .error (.help topic long)
  | .version => .error .version
  | opt => p.give opt ""

/-- The arguments that have been read, with a command. -/
def arguments (p : Progress) (command : Option Command) : Arguments :=
  { input := p.input
    grammar := p.value? .grammar
    case := p.value? .case
    config := p.value? .config
    format := p.value? .format
    noColor := p.has .noColor
    quiet := p.has .quiet
    verbose := p.has .verbose
    veryVerbose := p.has .veryVerbose
    command }

end Progress

/-- Reads an option given by its long name; `text` is the argument without the dashes in front. -/
def readLong (topic : HelpTopic) (options : List OptSpec) (p : Progress) (text : List Char) :
    Except UsageError Progress :=
  let name := String.ofList (text.takeWhile (· != '='))
  let attached := match text.dropWhile (· != '=') with
    | [] => none
    | _ :: v => some (String.ofList v)
  match options.find? (·.long = name), attached with
  | none, _ => .error .unknownArgument
  | some spec, some v => if spec.opt.takesValue then p.closeAndGive spec.opt v else .error .unexpectedValue
  | some spec, none =>
    if spec.opt.takesValue then p.closeAndOpen spec.opt else p.closeAndSet topic true spec.opt

/-- Reads options given by their short names, one after the other in one argument. -/
def readShort (topic : HelpTopic) (options : List OptSpec) (p : Progress) : List Char → Except UsageError Progress
  | [] => .ok p
  | c :: rest =>
    match options.find? (·.short = some c) with
    | none => .error .unknownArgument
    | some spec =>
      if spec.opt.takesValue then
        match rest with
        | [] => p.closeAndOpen spec.opt
        | '=' :: v => p.closeAndGive spec.opt (String.ofList v)
        | v => p.closeAndGive spec.opt (String.ofList v)
      else do
        let p ← p.closeAndSet topic false spec.opt
        readShort topic options p rest

/-- Reads an argument that begins with a dash, unless it is a dash alone. -/
def readOption? (topic : HelpTopic) (options : List OptSpec) (p : Progress) (arg : String) :
    Option (Except UsageError Progress) :=
  match arg.toList with
  | '-' :: '-' :: text => some (readLong topic options p text)
  | '-' :: c :: rest => some (readShort topic options p (c :: rest))
  | _ => none

/-- Why an input beyond the first is refused.  A word that looks like a command is taken for a mistyped one, but
a command that only follows a double dash is not. -/
def surplusInput (afterDashes : Bool) (arg : String) : UsageError :=
  if afterDashes && commandNames.contains arg then .unknownArgument
  else if commandNames.any fun name => similar arg.toList name.toList then .invalidCommand
  else .unknownArgument

/-- Reads an input. -/
def readInput (afterDashes : Bool) (p : Progress) (arg : String) : Except UsageError Progress :=
  if p.input.isSome then .error (surplusInput afterDashes arg)
  else do
    let p ← p.close
    pure { p with input := some arg }

/-- Reads the arguments of a command, which takes options only. -/
def readCommandOptions (topic : HelpTopic) (options : List OptSpec) (p : Progress) :
    List String → Except UsageError Progress
  | [] => .ok p
  | "--" :: rest => if rest.isEmpty then .ok p else .error .unknownArgument
  | arg :: rest =>
    match readOption? topic options p arg with
    | some read => do
      let p ← read
      readCommandOptions topic options p rest
    | none => .error .unknownArgument

/-- What the help command shows for the words behind it. -/
def readHelp : List String → UsageError
  | [] => .help .program true
  | ["version"] => .help .versionCommand true
  | ["config"] => .help .configCommand true
  | ["help"] => .help .helpCommand true
  | _ => .invalidCommand

/-- Reads a command and its options; nothing if the word is no command. -/
def readCommand? (word : String) (rest : List String) : Option (Except UsageError Command) :=
  match word with
  | "version" => some ((readCommandOptions .versionCommand versionOptions {} rest).map fun _ => .version)
  | "config" =>
    some ((readCommandOptions .configCommand configOptions {} rest).map fun p =>
      .config (p.has .showSettings) (p.has .validate))
  | "help" => some (.error (readHelp rest))
  | _ => none

/-- Reads the arguments behind a double dash, which are all inputs. -/
def readInputs (p : Progress) : List String → Except UsageError Arguments
  | [] => p.close.map (·.arguments none)
  | arg :: rest => do
    let p ← readInput true p arg
    readInputs p rest

/-- Reads the arguments that are left. -/
def readFrom (p : Progress) : List String → Except UsageError Arguments
  | [] => p.close.map (·.arguments none)
  | arg :: rest =>
    let command? := if p.awaiting?.isSome then none else readCommand? arg rest
    match command? with
    | some read => do
      let command ← read
      let p ← p.close
      pure (p.arguments (some command))
    | none =>
      if arg = "--" then readInputs p rest
      else
        match readOption? .program programOptions p arg with
        | some read => do
          let p ← read
          readFrom p rest
        | none =>
          match p.awaiting? with
          | some opt => readFrom { p with pending := some (opt, some arg) } rest
          | none => do
            let p ← readInput false p arg
            readFrom p rest

/-- Reads the arguments of the program. -/
def Arguments.read (args : List String) : Except UsageError Arguments := readFrom {} args

end Typeahead.CommandLine
