import Typeahead.Completion.Suggestion
import Typeahead.Data.JsonText

/-!
# Reports as text

A report is shown either plainly, one suggestion on each line, or as a JSON object that also holds the details of
the request.  Plain text can be colored.
-/

namespace Typeahead

open Data (Value)

/-- The format of the output. -/
inductive OutputFormat where
  | plain
  | json
  deriving Repr, DecidableEq

/-- How output is written. -/
structure OutputStyle where
  format : OutputFormat
  colored : Bool
  deriving Repr, DecidableEq

/-- The ways in which text can stand out on a terminal. -/
inductive Paint where
  | green
  | red
  | dimmed
  deriving Repr, DecidableEq

/-- The parameter of the terminal sequence that turns a paint on. -/
def Paint.code : Paint → String
  | green => "32"
  | red => "31"
  | dimmed => "2"

/-- Text between the terminal sequences that turn a paint on and off. -/
def Paint.apply (p : Paint) (text : String) : String := "\x1b[" ++ p.code ++ "m" ++ text ++ "\x1b[0m"

namespace OutputStyle

/-- Paints text if the output is colored. -/
def paint (style : OutputStyle) (p : Paint) (text : String) : String :=
  if style.colored then p.apply text else text

/-- A suggestion on a line of its own; colored output adds the name of its token. -/
def suggestionLine (style : OutputStyle) (g : Grammar) (s : Suggestion) : String :=
  if style.colored then Paint.green.apply s.text ++ "  " ++ Paint.dimmed.apply (g.displayName s.kind) else s.text

/-- A report in plain text.  The end of the input is listed behind the suggestions. -/
def plainText (style : OutputStyle) (g : Grammar) (r : Report) : String :=
  let ending := if r.acceptsEnd then [style.paint .dimmed "<end of input>"] else []
  match r.suggestions.map (style.suggestionLine g) ++ ending with
  | [] => style.paint .dimmed "(no suggestions)"
  | lines => "\n".intercalate lines

/-- A count as a value. -/
def countValue (n : Nat) : Value := .int n

/-- A report as a table whose keys are in alphabetical order. -/
def reportValue (g : Grammar) (input : String) (r : Report) : Value :=
  .table
    [("accepts_end_of_input", .bool r.acceptsEnd),
     ("input", .string input),
     ("partial",
       match r.unfinished with
       | none => .null
       | some u => .table [("start", countValue u.start), ("text", .string u.text)]),
     ("stats",
       .table
         [("explored", countValue r.stats.explored),
          ("pruned_calls", countValue r.stats.prunedCalls),
          ("truncated", countValue r.stats.truncated)]),
     ("suggestions",
       .array (r.suggestions.map fun s =>
         .table [("kind", .string (g.displayName s.kind)), ("text", .string s.text)]))]

/-- The text of a report. -/
def reportText (style : OutputStyle) (g : Grammar) (input : String) (r : Report) : String :=
  match style.format with
  | .plain => style.plainText g r
  | .json => Data.JsonText.pretty (reportValue g input r)

/-- The text of an error. -/
def errorText (style : OutputStyle) (message : String) : String :=
  match style.format with
  | .plain => style.paint .red message
  | .json => Data.JsonText.compact (.table [("error", .string message)])

end OutputStyle

end Typeahead
