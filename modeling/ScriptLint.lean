import ScriptLint.Command.Arguments
import ScriptLint.Command.Check
import ScriptLint.Command.Failure
import ScriptLint.Command.Run
import ScriptLint.Decimal.Binary64
import ScriptLint.Decimal.Shortest
import ScriptLint.Decode.Refusal
import ScriptLint.Diagnose
import ScriptLint.Diagnostic.Basic
import ScriptLint.Diagnostic.Locate
import ScriptLint.Diagnostic.Wire
import ScriptLint.Files.ReadError
import ScriptLint.Files.Tree
import ScriptLint.Fixture.Basic
import ScriptLint.Fixture.Summary
import ScriptLint.Grammar.Expression
import ScriptLint.Grammar.Parser
import ScriptLint.Grammar.Statement
import ScriptLint.Json.Lexical
import ScriptLint.Json.Reader
import ScriptLint.Json.Record
import ScriptLint.Json.Value
import ScriptLint.Lint.Declared
import ScriptLint.Lint.Scrub
import ScriptLint.Lint.Usage
import ScriptLint.Main
import ScriptLint.Proofs.Combinators
import ScriptLint.Proofs.Completeness
import ScriptLint.Proofs.Derivation
import ScriptLint.Proofs.FaultText
import ScriptLint.Proofs.Location
import ScriptLint.Proofs.Overlap
import ScriptLint.Proofs.Rendering
import ScriptLint.Proofs.Soundness
import ScriptLint.Report.Draw
import ScriptLint.Report.Span
import ScriptLint.Server.Basic
import ScriptLint.Server.Request
import ScriptLint.Server.Session
import ScriptLint.Service.Basic
import ScriptLint.Service.Buffers
import ScriptLint.Service.Loading
import ScriptLint.Settings.Basic
import ScriptLint.Settings.Decode
import ScriptLint.Source.Fault
import ScriptLint.Source.Position
import ScriptLint.Table
import ScriptLint.Text.Blank
import ScriptLint.Text.CellWidth
import ScriptLint.Text.Combining
import ScriptLint.Text.Lines
import ScriptLint.Text.Printable
import ScriptLint.Text.Quoted
import ScriptLint.Text.Rows
import ScriptLint.Text.Utf8
import ScriptLint.Token.Basic
import ScriptLint.Token.Scan
import ScriptLint.Toml.Lexical
import ScriptLint.Toml.Reader
import ScriptLint.Toml.Value
import ScriptLint.Tree
import ScriptLint.Vocabulary
import ScriptLint.Proofs.Reading
import ScriptLint.Proofs.Scrubbed
import ScriptLint.Proofs.TokenUses
import ScriptLint.Proofs.Serving
import ScriptLint.Proofs.Preemption
import ScriptLint.Proofs.Lookahead
import ScriptLint.Proofs.Viability
import ScriptLint.Proofs.LineByLine
import ScriptLint.Proofs.LineEndings
import ScriptLint.Proofs.JsonForm
import ScriptLint.Proofs.SingleFlight
import ScriptLint.Proofs.WireFormat
import ScriptLint.Proofs.PlainUses
import ScriptLint.Proofs.Bindings
import ScriptLint.Proofs.LocationRules
import ScriptLint.Proofs.Declaring
import ScriptLint.Proofs.CommentText
import ScriptLint.Proofs.OnePass
import ScriptLint.Proofs.ReportSpan
import ScriptLint.Proofs.Printing
import ScriptLint.Proofs.LexicalFaults
import ScriptLint.Proofs.FixtureFiles
import ScriptLint.Proofs.Lockstep
import ScriptLint.Proofs.Termination
import ScriptLint.Proofs.Drawing
