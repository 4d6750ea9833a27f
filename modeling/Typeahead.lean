import Typeahead.CommandLine.Arguments
import Typeahead.CommandLine.Help
import Typeahead.CommandLine.Run
import Typeahead.CommandLine.Similarity
import Typeahead.Completion.Cursor
import Typeahead.Completion.Expectation
import Typeahead.Completion.Suggestion
import Typeahead.Completion.Token
import Typeahead.Data.JsonText
import Typeahead.Data.Toml.Document
import Typeahead.Data.Toml.Quoted
import Typeahead.Data.Toml.Reader
import Typeahead.Data.Toml.Scalar
import Typeahead.Data.Value
import Typeahead.Display.Highlight
import Typeahead.Display.Prompt
import Typeahead.Display.Report
import Typeahead.Grammar.Assembly
import Typeahead.Grammar.Basic
import Typeahead.Grammar.Declarations
import Typeahead.Grammar.Definition
import Typeahead.Grammar.Pattern
import Typeahead.Grammar.Sample.HarmonySql
import Typeahead.Grammar.Spelling
import Typeahead.Main
import Typeahead.Network.Basic
import Typeahead.Network.Closure
import Typeahead.Network.Configuration
import Typeahead.Settings.Basic
import Typeahead.Settings.File
import Typeahead.Text.Alphabetic
import Typeahead.Text.CaseIgnorable
import Typeahead.Text.Cased
import Typeahead.Text.CharSet
import Typeahead.Text.CodeRange
import Typeahead.Text.LetterCase
import Typeahead.Text.Lowercase
import Typeahead.Text.Uppercase
import Typeahead.Proofs.Network.Reachability
import Typeahead.Proofs.Grammar.Language
import Typeahead.Proofs.Network.Exploration
import Typeahead.Proofs.Grammar.LeftRecursion
import Typeahead.Proofs.Grammar.Resolution
import Typeahead.Proofs.Network.Building
import Typeahead.Proofs.Grammar.Account
import Typeahead.Proofs.Grammar.Spans
import Typeahead.Proofs.Grammar.Realization
import Typeahead.Proofs.Grammar.Built
import Typeahead.Proofs.Grammar.Declared
import Typeahead.Proofs.Completion.Expectation
import Typeahead.Proofs.Completion.Viability
import Typeahead.Proofs.Completion.LongestMatch
import Typeahead.Proofs.Completion.MaximalMunch
import Typeahead.Proofs.Completion.Reading
import Typeahead.Proofs.Completion.GrowingInput
import Typeahead.Proofs.Completion.Cursor
import Typeahead.Proofs.Grammar.Words
import Typeahead.Proofs.Network.Additions
import Typeahead.Proofs.Network.Paths
import Typeahead.Proofs.Grammar.Compilation
import Typeahead.Proofs.Network.InRange
import Typeahead.Proofs.Completion.LiteralTokens
import Typeahead.Proofs.Network.LeftCalls
import Typeahead.Proofs.Network.Truncation
import Typeahead.Proofs.Completion.Suggestion
import Typeahead.Proofs.Completion.ConfigurationLimit
import Typeahead.Proofs.Grammar.Beginnings
import Typeahead.Proofs.Completion.OperatorChains
import Typeahead.Proofs.Grammar.Residuals
import Typeahead.Proofs.Network.CallFree
import Typeahead.Proofs.Grammar.Buildable
import Typeahead.Proofs.Completion.Blanks
import Typeahead.Proofs.Completion.AcceptedSuggestion
import Typeahead.Proofs.Completion.HarmonySql
import Typeahead.Proofs.Network.Trace
import Typeahead.Proofs.Network.Finiteness
import Typeahead.Proofs.Network.EmptyRuns
import Typeahead.Proofs.Grammar.Leaves
import Typeahead.Proofs.Grammar.WellFormed
import Typeahead.Proofs.Completion.NothingLost
import Typeahead.Proofs.Text.LetterCase
import Typeahead.Proofs.Completion.Recasing
import Typeahead.Proofs.Text.ByteOrder
import Typeahead.Proofs.Completion.SortedSuggestions
import Typeahead.Proofs.Network.FirstSymbols
import Typeahead.Proofs.Completion.EndOfInput
import Typeahead.Proofs.Grammar.Alphabet
import Typeahead.Proofs.Network.Pacing
import Typeahead.Proofs.Completion.Composition
import Typeahead.Proofs.Completion.Vocabulary
import Typeahead.Proofs.Completion.BeforeCursor
import Typeahead.Proofs.Display.Highlight
import Typeahead.Proofs.Network.Ownership
import Typeahead.Proofs.Completion.Advance
import Typeahead.Proofs.Network.Coherence
import Typeahead.Proofs.Completion.CallStacks
import Typeahead.Proofs.Network.Lookups
import Typeahead.Proofs.Completion.Lookups
import Typeahead.Proofs.Grammar.LeastSolution
import Typeahead.Proofs.Data.Rearrangement
import Typeahead.Proofs.Grammar.RoundTrip
import Typeahead.Proofs.Network.Renumbering
import Typeahead.Proofs.Network.ParallelLayout
import Typeahead.Proofs.Network.Reordering
import Typeahead.Proofs.Grammar.Reordering
import Typeahead.Proofs.Completion.DeclarationOrder
import Typeahead.Proofs.Network.SeedOrder
import Typeahead.Proofs.Text.CaseInPlace
import Typeahead.Proofs.Text.ClassBody
import Typeahead.Proofs.Completion.Fragment
import Typeahead.Proofs.Grammar.WalkTermination
