import Typeahead.CommandLine.Run
import Typeahead.Display.Prompt

/-!
# The program

Reads the arguments and files, runs, and prints what comes of it.  Without an input, the lines of the standard
input are completed one after the other.
-/

open Typeahead Typeahead.CommandLine

/-- Reads a file; a path that leads nowhere has none. -/
def readFileAt (path : String) : IO (Option FileContent) := do
  match ← (IO.FS.readFile path).toBaseIO with
  | .ok text => pure (some (.text text))
  | .error (.noFileOrDirectory ..) => pure none
  | .error e => pure (some (.unreadable (toString e)))

/-- Prints what a run leaves behind. -/
def printOutcome (outcome : Outcome) : IO Unit := do
  for line in outcome.stderr do
    IO.eprintln line
  IO.print outcome.stdout

/-- Completes line after line until the input ends. -/
partial def completeLines (session : Session) : IO Unit := do
  IO.print (Prompt.left ((session.grammar.ruleName? session.grammar.startRule).getD ""))
  let line ← (← IO.getStdin).getLine
  if line.isEmpty then IO.println "Goodbye!"
  else
    let input := String.ofList (line.toList.filter (· != '\n'))
    unless input.toList.all Char.isWhitespace do
      printOutcome (completeInput session.grammar session.settings input)
    completeLines session

def main (args : List String) : IO UInt32 := do
  let home := (← IO.getEnv "HOME").getD "."
  match ← run home readFileAt args with
  | .finished outcome =>
    printOutcome outcome
    pure outcome.exit.toUInt32
  | .session session =>
    for line in session.warnings do
      IO.eprintln line
    for line in session.banner do
      IO.println line
    completeLines session
    pure 0
