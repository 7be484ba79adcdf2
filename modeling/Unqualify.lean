import Unqualify.Command
import Unqualify.Json.Reader
import Unqualify.Main
import Unqualify.Proofs.Analysis.Order
import Unqualify.Proofs.Scan.Chain
import Unqualify.Proofs.Scan.Shorten
import Unqualify.Proofs.Scan.Spelled
import Unqualify.Proofs.Scan.Together
import Unqualify.Proofs.SymbolTable.Represents
import Unqualify.Snapshot
import Unqualify.Proofs.Scan.Cancel
import Unqualify.Proofs.Analysis.Cancel
import Unqualify.Proofs.FileTree
import Unqualify.Proofs.Discovery
import Unqualify.Proofs.Discovery.Walk
import Unqualify.Proofs.Command.Fix
import Unqualify.Proofs.Command.Account
import Unqualify.Proofs.Model.Visible
import Unqualify.Proofs.Outline.FileScoped
import Unqualify.Proofs.Edit.Simultaneous
import Unqualify.Proofs.Tree
import Unqualify.Proofs.Outline.Blocks
import Unqualify.Proofs.Model.Levels
import Unqualify.Proofs.Model.Members
import Unqualify.Proofs.Model.Parameters
import Unqualify.Proofs.Model.Composed
import Unqualify.Proofs.Model.Directives
import Unqualify.Proofs.Expression.Places
import Unqualify.Proofs.Expression.Origin
import Unqualify.Proofs.Expression.Kept
import Unqualify.Proofs.SymbolTable.Library
import Unqualify.Proofs.SymbolTable.Extends
import Unqualify.Proofs.Using.Layout
import Unqualify.Proofs.Using.Directive
import Unqualify.Proofs.Discovery.Spelling
import Unqualify.Proofs.Discovery.Eligible
import Unqualify.Proofs.Command.Excluded
import Unqualify.Proofs.Analysis.Findings
import Unqualify.Proofs.Text.Lines
import Unqualify.Proofs.Report.Positions
import Unqualify.Proofs.Model.OneLine
import Unqualify.Proofs.Report.Lines
import Unqualify.Proofs.Generated
import Unqualify.Proofs.Outline.Locals
import Unqualify.Proofs.Outline.Sites
import Unqualify.Proofs.Report.Data
