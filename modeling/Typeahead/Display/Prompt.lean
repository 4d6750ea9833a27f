/-!
# Prompt

The texts around the input line of an interactive session.
-/

namespace Typeahead.Prompt

/-- Stands before the line and shows the start rule. -/
def left (rule : String) : String := s!"{rule}> "

/-- Stands at the right end of the line. -/
def right : String := ""

/-- Stands between the prompt and the line. -/
def indicator : String := ""

/-- Stands before every further line of an input. -/
def continuation : String := "... "

/-- Stands before the line while the history is searched for `term`. -/
def search (failing : Bool) (term : String) : String :=
  let status := if failing then "failing " else ""
  s!"({status}reverse-search: {term}) "

end Typeahead.Prompt
