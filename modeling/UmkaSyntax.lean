import UmkaSyntax.CommandLine.Commands
import UmkaSyntax.CommandLine.Help
import UmkaSyntax.CommandLine.Listing
import UmkaSyntax.CommandLine.Options
import UmkaSyntax.CommandLine.Output
import UmkaSyntax.Diagnostic.Basic
import UmkaSyntax.Diagnostic.Code
import UmkaSyntax.Diagnostic.Marks
import UmkaSyntax.Diagnostic.OfError
import UmkaSyntax.Diagnostic.Render
import UmkaSyntax.Diagnostic.Report
import UmkaSyntax.Diagnostic.Suggestion
import UmkaSyntax.Error.Expected
import UmkaSyntax.Error.Lexical
import UmkaSyntax.Error.Syntax
import UmkaSyntax.Grammar.Declaration
import UmkaSyntax.Grammar.Expression
import UmkaSyntax.Grammar.Rule
import UmkaSyntax.Grammar.Type
import UmkaSyntax.Json.Basic
import UmkaSyntax.Json.Printer
import UmkaSyntax.Json.Reader
import UmkaSyntax.Lexing.Lexeme
import UmkaSyntax.Lexing.Stream
import UmkaSyntax.Literal.Segment
import UmkaSyntax.Literal.Split
import UmkaSyntax.Main
import UmkaSyntax.Parsing.Builder
import UmkaSyntax.Parsing.Event
import UmkaSyntax.Parsing.OpenNode
import UmkaSyntax.Parsing.Parse
import UmkaSyntax.Parsing.Run
import UmkaSyntax.Parsing.State
import UmkaSyntax.Proofs.Adoption
import UmkaSyntax.Proofs.BodyGrammar
import UmkaSyntax.Proofs.BrokenTrees
import UmkaSyntax.Proofs.Colours
import UmkaSyntax.Proofs.Completeness
import UmkaSyntax.Proofs.EndOfInput
import UmkaSyntax.Proofs.ErrorPlaces
import UmkaSyntax.Proofs.FormatBytes
import UmkaSyntax.Proofs.Grammar.Derivation
import UmkaSyntax.Proofs.Grammar.Form
import UmkaSyntax.Proofs.Grammar.Productions
import UmkaSyntax.Proofs.Grammar.Realization
import UmkaSyntax.Proofs.Layout
import UmkaSyntax.Proofs.LexicalGrammar
import UmkaSyntax.Proofs.Lexing.Grammar
import UmkaSyntax.Proofs.Losslessness
import UmkaSyntax.Proofs.NearestCandidate
import UmkaSyntax.Proofs.Nesting
import UmkaSyntax.Proofs.Occurrences
import UmkaSyntax.Proofs.Parsing.Parts
import UmkaSyntax.Proofs.Parsing.Shape
import UmkaSyntax.Proofs.Parsing.Whole
import UmkaSyntax.Proofs.Positions
import UmkaSyntax.Proofs.ReadBack
import UmkaSyntax.Proofs.Recovery
import UmkaSyntax.Proofs.Rendering
import UmkaSyntax.Proofs.Siblings
import UmkaSyntax.Proofs.Skipping
import UmkaSyntax.Proofs.Soundness
import UmkaSyntax.Proofs.Splitting
import UmkaSyntax.Proofs.Suggestions
import UmkaSyntax.Proofs.TerminatorRuns
import UmkaSyntax.Proofs.Tree.Fields
import UmkaSyntax.Proofs.Tree.Leaves
import UmkaSyntax.Proofs.Tree.Nodes
import UmkaSyntax.Proofs.Trivia
import UmkaSyntax.Proofs.Underlines
import UmkaSyntax.Proofs.UniqueReading
import UmkaSyntax.Proofs.Verdict
import UmkaSyntax.Proofs.WellFormedness
import UmkaSyntax.Source.Basic
import UmkaSyntax.Source.LineTable
import UmkaSyntax.Text.Basic
import UmkaSyntax.Text.Quoted
import UmkaSyntax.Text.Styled
import UmkaSyntax.Text.Words
import UmkaSyntax.Token.Basic
import UmkaSyntax.Token.Kind
import UmkaSyntax.Token.Vocabulary
import UmkaSyntax.Tree.Basic
import UmkaSyntax.Tree.Encoding
import UmkaSyntax.Tree.Kind
import UmkaSyntax.Tree.SExpression
import UmkaSyntax.Tree.Walk
