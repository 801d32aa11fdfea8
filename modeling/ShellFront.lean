import ShellFront.Source.Position
import ShellFront.Report
import ShellFront.Text.Quoted
import ShellFront.Token.Lexer
import ShellFront.Number.Numeral
import ShellFront.Number.Shortest
import ShellFront.Tree.Leaf
import ShellFront.Tree.Pattern
import ShellFront.Tree.Node
import ShellFront.Tree.NodeKind
import ShellFront.Tree.Outline
import ShellFront.Parse.Problem
import ShellFront.Parse.Cursor
import ShellFront.Parse.Lookahead
import ShellFront.Parse.Recovery
import ShellFront.Parse.Basic
import ShellFront.Parse.Block
import ShellFront.Parse.Expression
import ShellFront.Parse.Pattern
import ShellFront.Parse.Statement
import ShellFront.Parse.Program
import ShellFront.Names.Event
import ShellFront.Names.Table
import ShellFront.Names.Resolver
import ShellFront.Vocabulary.Basic
import ShellFront.Vocabulary.Document
import ShellFront.Vocabulary.Schema
import ShellFront.Vocabulary.Standard
import ShellFront.Text.Digit
import ShellFront.Text.Lines
import ShellFront.CommandLine.Options
import ShellFront.CommandLine.Arguments
import ShellFront.CommandLine.Files
import ShellFront.CommandLine.Check
import ShellFront.Main
import ShellFront.Proofs.Token.Pieces
import ShellFront.Proofs.Token.Trivia
import ShellFront.Proofs.Token.Lossless
import ShellFront.Proofs.Tree.Outlined
import ShellFront.Proofs.Parse.Reading
import ShellFront.Proofs.Parse.Coverage
import ShellFront.Proofs.Parse.Recovery
import ShellFront.Proofs.Parse.Blame
import ShellFront.Proofs.Parse.Agreement
import ShellFront.Proofs.Parse.Actions
import ShellFront.Proofs.Parse.Parts
import ShellFront.Proofs.Parse.StatementLists
import ShellFront.Proofs.Parse.Expressions
import ShellFront.Proofs.Parse.Statements
import ShellFront.Proofs.Parse.Scripts
import ShellFront.Proofs.Names.Frames
import ShellFront.Proofs.Names.Moments
import ShellFront.Proofs.Names.Scoping
import ShellFront.Proofs.Names.Deeds
import ShellFront.Proofs.Twins.Views
import ShellFront.Proofs.Tree.Seen
import ShellFront.Proofs.Names.Told
import ShellFront.Proofs.Names.Collected
import ShellFront.Proofs.Names.Constructs
import ShellFront.Proofs.Names.Lexical
import ShellFront.Proofs.Names.Uses
import ShellFront.Proofs.Names.References
import ShellFront.Proofs.Layout.Nesting
import ShellFront.Proofs.Layout.Stretches
import ShellFront.Proofs.Layout.Leaves
import ShellFront.Proofs.Layout.Readings
import ShellFront.Proofs.Layout.Actions
import ShellFront.Proofs.Layout.Parts
import ShellFront.Proofs.Layout.Skipping
import ShellFront.Proofs.Layout.Lists
import ShellFront.Proofs.Layout.Expressions
import ShellFront.Proofs.Layout.Statements
import ShellFront.Proofs.Layout.Scripts
import ShellFront.Proofs.Layout.Endings
import ShellFront.Proofs.Layout.Progress
import ShellFront.Proofs.Token.Lines
import ShellFront.Proofs.Token.Joining
import ShellFront.Proofs.Twins.Seams
import ShellFront.Proofs.Twins.Fading
import ShellFront.Proofs.Twins.Actions
import ShellFront.Proofs.Twins.Mirrors
import ShellFront.Proofs.Twins.Loops
import ShellFront.Proofs.Twins.Lookahead
import ShellFront.Proofs.Twins.Parts
import ShellFront.Proofs.Twins.Blocks
import ShellFront.Proofs.Twins.Expressions
import ShellFront.Proofs.Twins.Statements
import ShellFront.Proofs.Twins.Values
import ShellFront.Proofs.Twins.Words
import ShellFront.Proofs.Twins.Scripts
import ShellFront.Proofs.Twins.Shifts
import ShellFront.Proofs.Twins.Joints
import ShellFront.Proofs.Vocabulary.Labels
import ShellFront.Proofs.Vocabulary.Independence
import ShellFront.Proofs.Names.Warnings
import ShellFront.Proofs.Places.Exact
import ShellFront.Proofs.Places.Trees
import ShellFront.Proofs.Places.Scripts
import ShellFront.Proofs.Names.Files
import ShellFront.Proofs.Token.Gaps
import ShellFront.Proofs.Token.Literals
import ShellFront.Proofs.Token.Alone
import ShellFront.Proofs.Token.Respacing
import ShellFront.Proofs.Twins.Depth
import ShellFront.Proofs.Token.OpenGroups
import ShellFront.Proofs.Token.NextLines
import ShellFront.Proofs.Parse.Reports
import ShellFront.Proofs.Values.Blind
import ShellFront.Proofs.Values.Gives
import ShellFront.Proofs.Values.GivesUp
import ShellFront.Proofs.Values.Closures
import ShellFront.Proofs.Values.Braces
import ShellFront.Proofs.Written.Constructs
import ShellFront.Proofs.Written.Words
import ShellFront.Proofs.Written.Cuts
import ShellFront.Proofs.Written.RoundTrip
import ShellFront.Proofs.Operators.Fitting
import ShellFront.Proofs.Values.Outcomes
import ShellFront.Proofs.Operators.Operands
import ShellFront.Proofs.Operators.Building
import ShellFront.Proofs.Operators.Ranks
import ShellFront.Proofs.Values.Pipes
import ShellFront.Proofs.Values.Lambdas
import ShellFront.Proofs.Parse.ReportOrder
import ShellFront.Proofs.Names.WarningOrder
import ShellFront.Proofs.Number.Doubles
import ShellFront.Proofs.Number.Numerals
import ShellFront.Proofs.Token.Spelt
import ShellFront.Proofs.Patterns.Rendering
import ShellFront.Proofs.Patterns.Reading
import ShellFront.Proofs.Patterns.Consumed
import ShellFront.Proofs.Modes.Obeyed
import ShellFront.Proofs.Modes.Kept
import ShellFront.Proofs.Modes.Expressions
import ShellFront.Proofs.Modes.Scripts
import ShellFront.Proofs.Names.Unresolved
import ShellFront.Proofs.Names.Openings
import ShellFront.Proofs.Names.WellFormed
import ShellFront.Proofs.Token.Quotes
import ShellFront.Proofs.Written.Strings
import ShellFront.Proofs.Token.Stems
import ShellFront.Proofs.Token.Pared
import ShellFront.Proofs.Token.Comments
import ShellFront.Proofs.Vocabulary.Acceptance
import ShellFront.Proofs.Places.Covers
import ShellFront.Proofs.Number.Spellings
import ShellFront.Proofs.Written.Numbers
import ShellFront.Proofs.Written.Records
import ShellFront.Proofs.Tree.Visits
import ShellFront.Proofs.Token.Trailing
import ShellFront.Proofs.Twins.LineEnds
