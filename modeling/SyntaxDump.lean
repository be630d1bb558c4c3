import SyntaxDump.Main
import SyntaxDump.Proofs.Binary64.Rounding
import SyntaxDump.Proofs.Binary64.Error
import SyntaxDump.Proofs.Decimal.Digits
import SyntaxDump.Proofs.Decimal.Scientific
import SyntaxDump.Proofs.Decimal.Shortest
import SyntaxDump.Proofs.Decimal.Nearest
import SyntaxDump.Proofs.Decimal.Identify
import SyntaxDump.Proofs.Json.Number
import SyntaxDump.Proofs.Json.Scaling
import SyntaxDump.Proofs.Json.ReadBack
import SyntaxDump.Proofs.Json.Context
import SyntaxDump.Proofs.Json.Integer
import SyntaxDump.Proofs.Syntax.Tree
import SyntaxDump.Proofs.Interchange.Decode
import SyntaxDump.Proofs.Interchange.RoundTrip
import SyntaxDump.Proofs.Syntax.TypeName
import SyntaxDump.Proofs.Tag.Forest
import SyntaxDump.Proofs.Tag.Line
import SyntaxDump.Proofs.Tag.Soundness
import SyntaxDump.Proofs.Tag.Nesting
import SyntaxDump.Proofs.Tag.Recovery
import SyntaxDump.Proofs.Tag.Sink
import SyntaxDump.Proofs.Tag.Indentation
import SyntaxDump.Proofs.Tag.Levels
import SyntaxDump.Proofs.Tag.Double
import SyntaxDump.Proofs.Tag.Outline
import SyntaxDump.Proofs.Interchange.NormalForm
import SyntaxDump.Proofs.CommandLine.Options
import SyntaxDump.Proofs.CommandLine.Extras
import SyntaxDump.Proofs.Format.Options
import SyntaxDump.Proofs.CommandLine.Commands
import SyntaxDump.Proofs.CommandLine.Routes
import SyntaxDump.Proofs.Tag.Pending
import SyntaxDump.Proofs.Config.Layering
import SyntaxDump.Proofs.Format.Registry
import SyntaxDump.Proofs.Interchange.Fields
import SyntaxDump.Proofs.Interchange.Edits
import SyntaxDump.Proofs.Interchange.Documents
import SyntaxDump.Proofs.Interchange.Members
import SyntaxDump.Proofs.Interchange.Slots
import SyntaxDump.Proofs.Interchange.Gaps
import SyntaxDump.Proofs.Interchange.Openings
import SyntaxDump.Proofs.Interchange.Places
import SyntaxDump.Proofs.Interchange.Shown
import SyntaxDump.Proofs.Interchange.Reach
import SyntaxDump.Proofs.Interchange.Deletions
import SyntaxDump.Proofs.Interchange.Incomplete
import SyntaxDump.Proofs.Interchange.Precision
import SyntaxDump.Proofs.Interchange.WholeNumbers
