import Typeahead.Data.Toml.Quoted
import Typeahead.Data.Toml.Reader
import Typeahead.Settings.Basic

/-!
# Settings files

Settings are read from a TOML document and can be written as one.
-/

namespace Typeahead.Settings

open Data (Value Format)

/-- Reads one of several named choices. -/
def readChoice {α : Type} (ofName? : String → Option α) (v : Value) : Option α :=
  (v.choice? .toml).bind ofName?

/-- Reads the settings of completion. -/
def readSuggest (v : Value) : Option SuggestSettings := do
  let entries ← v.record? .toml ["case_preference", "max_rule_reentry", "max_configurations", "grammar"]
  let standard : SuggestSettings := {}
  let case ← Value.optional entries "case_preference" standard.casePreference
    (readChoice CasePreference.ofExactName?)
  let reentry ← Value.optional entries "max_rule_reentry" standard.limits.reentry Value.count?
  let configurations ← Value.optional entries "max_configurations" standard.limits.configurations Value.count?
  let grammar ← Value.optional entries "grammar" none fun v => v.string?.map some
  pure ⟨case, ⟨reentry, configurations⟩, grammar⟩

/-- Reads the settings of the output. -/
def readDisplay (standard : OutputStyle) (v : Value) : Option OutputStyle := do
  let entries ← v.record? .toml ["format", "color_output"]
  let format ← Value.optional entries "format" standard.format (readChoice OutputFormat.ofName?)
  let colored ← Value.optional entries "color_output" standard.colored Value.bool?
  pure ⟨format, colored⟩

/-- Reads the settings of the history. -/
def readHistory (standard : HistorySettings) (v : Value) : Option HistorySettings := do
  let entries ← v.record? .toml ["max_size", "file_path", "persist"]
  let maxSize ← Value.optional entries "max_size" standard.maxSize Value.count?
  let filePath ← Value.optional entries "file_path" standard.filePath Value.string?
  let persist ← Value.optional entries "persist" standard.persist Value.bool?
  pure ⟨maxSize, filePath, persist⟩

/-- Reads the settings of the log. -/
def readLogging (v : Value) : Option LogSettings := do
  let entries ← v.record? .toml ["level", "timestamps"]
  let standard : LogSettings := {}
  let level ← Value.optional entries "level" standard.level (readChoice LogLevel.ofName?)
  let timestamps ← Value.optional entries "timestamps" standard.timestamps Value.bool?
  pure ⟨level, timestamps⟩

/-- Reads settings; whatever is not given has its default. -/
def ofValue? (home : String) (v : Value) : Option Settings := do
  let entries ← v.record? .toml ["suggest", "display", "history", "logging"]
  let standard := standard home
  let suggest ← Value.optional entries "suggest" standard.suggest readSuggest
  let display ← Value.optional entries "display" standard.display (readDisplay standard.display)
  let history ← Value.optional entries "history" standard.history (readHistory standard.history)
  let logging ← Value.optional entries "logging" standard.logging readLogging
  pure ⟨suggest, display, history, logging⟩

/-- Reads the text of a settings file. -/
def read (home : String) (text : String) : Except SettingsError Settings :=
  match Data.Toml.read? text with
  | none => .error (.invalidFormat "the text is not well formed")
  | some v =>
    match ofValue? home v with
    | none => .error (.invalidFormat "a setting has a value of the wrong kind")
    | some s => .ok s

/-- A truth value in a settings file. -/
def flagText (b : Bool) : String := if b then "true" else "false"

/-- The lines of a section: its header and its entries. -/
def sectionLines (name : String) (entries : List (String × String)) : List String :=
  s!"[{name}]" :: entries.map fun (key, text) => s!"{key} = {text}"

/-- The text of a settings file; a comment in front tells where such a file is looked for. -/
def render (home : String) (s : Settings) : String :=
  let quote := Data.Toml.quote
  let grammar := match s.suggest.grammar with
    | none => []
    | some path => [("grammar", quote path)]
  let sections :=
    [sectionLines "suggest"
      ([("case_preference", quote s.suggest.casePreference.name),
        ("max_rule_reentry", toString s.suggest.limits.reentry),
        ("max_configurations", toString s.suggest.limits.configurations)] ++ grammar),
     sectionLines "display"
      [("format", quote s.display.format.name), ("color_output", flagText s.display.colored)],
     sectionLines "history"
      [("max_size", toString s.history.maxSize), ("file_path", quote s.history.filePath),
       ("persist", flagText s.history.persist)],
     sectionLines "logging"
      [("level", quote s.logging.level.name), ("timestamps", flagText s.logging.timestamps)]]
  let body := "\n\n".intercalate (sections.map fun lines => "\n".intercalate lines)
  "# autosuggest configuration\n# Default location: " ++ defaultPath home ++ "\n\n" ++ body ++ "\n"

end Typeahead.Settings
