import PrattSyntax.CommandLine.Run
import PrattSyntax.Diagnostic.Rejection
import PrattSyntax.Echo
import PrattSyntax.Editor.Range
import PrattSyntax.FileTree
import PrattSyntax.Lexer.Move
import PrattSyntax.Main
import PrattSyntax.Parser.Session
import PrattSyntax.Reference
import PrattSyntax.Toml.Document
import PrattSyntax.Tree.Outline
import PrattSyntax.Proofs.Text.Division
import PrattSyntax.Proofs.Lexer.Lexeme
import PrattSyntax.Proofs.Lexer.Step
import PrattSyntax.Proofs.Lexer.Segmentation
import PrattSyntax.Proofs.Parser.Induction
import PrattSyntax.Proofs.Parser.OneFault
import PrattSyntax.Proofs.Grammar.Phrase
import PrattSyntax.Proofs.Grammar.Derivation
import PrattSyntax.Proofs.Grammar.Acceptance
import PrattSyntax.Proofs.Operators.Climbing
import PrattSyntax.Proofs.Places.Moved
import PrattSyntax.Proofs.Places.Reading
import PrattSyntax.Proofs.Lexer.Concatenation
import PrattSyntax.Proofs.Grammar.Ending
import PrattSyntax.Proofs.Recovery.DepthLimit
import PrattSyntax.Proofs.Parser.Progress
import PrattSyntax.Proofs.Recovery.Isolation
import PrattSyntax.Proofs.Recovery.Blame
import PrattSyntax.Proofs.Lexer.Writing
import PrattSyntax.Proofs.Grammar.Printing
import PrattSyntax.Proofs.Lexer.Place
import PrattSyntax.Proofs.Calls.Relation
import PrattSyntax.Proofs.Calls.Tables
import PrattSyntax.Proofs.Calls.Program
import PrattSyntax.Proofs.Parser.Sessions
import PrattSyntax.Proofs.Places.Sight
import PrattSyntax.Proofs.Places.Numbering
import PrattSyntax.Proofs.Lexer.Seam
import PrattSyntax.Proofs.Text.Encoding
import PrattSyntax.Proofs.Lexer.Spacing
import PrattSyntax.Proofs.Tree.Provenance
import PrattSyntax.Proofs.Text.Lines
import PrattSyntax.Proofs.Lexer.Excerpt
import PrattSyntax.Proofs.Editor.Designation
import PrattSyntax.Proofs.Recovery.BrokenLet
import PrattSyntax.Proofs.Text.Breaks
import PrattSyntax.Proofs.CommandLine.ExitCode
import PrattSyntax.Proofs.CommandLine.Room
import PrattSyntax.Proofs.Diagnostic.Drawing
import PrattSyntax.Proofs.Calls.Faults
import PrattSyntax.Proofs.Calls.Extension
import PrattSyntax.Proofs.Echo.Lines
import PrattSyntax.Proofs.Text.Lossy
import PrattSyntax.Proofs.Diagnostic.Heading
import PrattSyntax.Proofs.Outline.Rows
import PrattSyntax.Proofs.Outline.Shown
import PrattSyntax.Proofs.Outline.Disclosure
