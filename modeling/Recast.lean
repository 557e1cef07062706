import Recast.Binary
import Recast.Catalog.Basic
import Recast.Catalog.Op
import Recast.Catalog.Standard
import Recast.ClassTable
import Recast.Code.Builder
import Recast.Code.Instr
import Recast.Code.Listing
import Recast.Code.ScratchPool
import Recast.Constant
import Recast.Convert.Error
import Recast.Convert.Evaluate
import Recast.Convert.Folding
import Recast.Convert.Narrow
import Recast.Convert.Reference
import Recast.Convert.Reshape
import Recast.Convert.Scalar
import Recast.Convert.Scope
import Recast.Convert.Script
import Recast.Convert.Text
import Recast.Convert.Union
import Recast.Decimal.FloatText
import Recast.Decimal.Shortest
import Recast.Expr
import Recast.Hint
import Recast.Options
import Recast.Place
import Recast.Rep
import Recast.Report.Diagnostic
import Recast.Report.Drawing
import Recast.Report.Layout
import Recast.Report.Paint
import Recast.Request
import Recast.Session
import Recast.Text.CharClass
import Recast.Text.Combining
import Recast.Text.Lines
import Recast.Text.Quoted
import Recast.Text.Unassigned
import Recast.Text.Unprintable
import Recast.Text.Width
import Recast.Proofs.Nesting
import Recast.Proofs.Outcome
import Recast.Proofs.Numbering
import Recast.Proofs.Reachable
import Recast.Proofs.OperandTypes
import Recast.Proofs.TypedPlans
import Recast.Proofs.TypedConversions
import Recast.Proofs.Totality
import Recast.Proofs.PlaceLoads
import Recast.Proofs.Folding
import Recast.Proofs.Steps
import Recast.Proofs.Congruence
import Recast.Proofs.MissingOperations
import Recast.Proofs.History
import Recast.Proofs.TypedRequests
import Recast.Proofs.OptionCosts
import Recast.Proofs.AddressFlow
import Recast.Proofs.TidyPlans
import Recast.Proofs.ScratchUse
import Recast.Proofs.Hierarchy
import Recast.Proofs.Narrowing
import Recast.Proofs.Accessors
import Recast.Proofs.Statements
import Recast.Proofs.StackDepth
import Recast.Proofs.PoolHistory
import Recast.Proofs.Idempotence
import Recast.Proofs.Failures
import Recast.Proofs.NestingDepth
import Recast.Proofs.CheckedCasts
import Recast.Proofs.CodeFrame
import Recast.Proofs.AliasTransparency
import Recast.Proofs.Effects
import Recast.Proofs.ClosedCode
import Recast.Proofs.Branches
import Recast.Proofs.QuotedText
import Recast.Proofs.Listings
import Recast.Proofs.References
import Recast.Proofs.Widening
import Recast.Proofs.RoundTrip
import Recast.Proofs.Declarations
import Recast.Proofs.BuilderPools
