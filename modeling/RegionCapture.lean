import RegionCapture.Annotations
import RegionCapture.Check
import RegionCapture.Check.Monad
import RegionCapture.Check.Scope
import RegionCapture.Command
import RegionCapture.Compilation
import RegionCapture.Diagnostic
import RegionCapture.Export.Address
import RegionCapture.Export.Database
import RegionCapture.Export.RunId
import RegionCapture.Export.Signature
import RegionCapture.Export.Stored
import RegionCapture.Export.Version
import RegionCapture.Fault
import RegionCapture.Files
import RegionCapture.Listing
import RegionCapture.Main
import RegionCapture.Options
import RegionCapture.Options.Document
import RegionCapture.Options.Load
import RegionCapture.Options.Toml.Reader
import RegionCapture.Options.Toml.Scalar
import RegionCapture.Options.Toml.Table
import RegionCapture.Options.Toml.Text
import RegionCapture.Options.Yaml.Cursor
import RegionCapture.Options.Yaml.Moment
import RegionCapture.Options.Yaml.Node
import RegionCapture.Options.Yaml.Printer
import RegionCapture.Options.Yaml.Reader
import RegionCapture.Options.Yaml.Scalar
import RegionCapture.Options.Yaml.Token
import RegionCapture.Options.Yaml.Token.Lexer
import RegionCapture.Options.Yaml.Token.Tag
import RegionCapture.Options.Yaml.Token.Text
import RegionCapture.Path
import RegionCapture.Provenance
import RegionCapture.Region.Equation
import RegionCapture.Region.Set
import RegionCapture.Region.Slice
import RegionCapture.Region.Table
import RegionCapture.Symbol
import RegionCapture.Text.Base64
import RegionCapture.Text.Blank
import RegionCapture.Text.Calendar
import RegionCapture.Text.CodePoint
import RegionCapture.Text.Double
import RegionCapture.Text.Numeral
import RegionCapture.Text.Printable
import RegionCapture.Text.Quoted
import RegionCapture.Text.Raw
import RegionCapture.Text.StringList
import RegionCapture.Token
import RegionCapture.Trace
import RegionCapture.Tree
import RegionCapture.Tree.Builder
import RegionCapture.Tree.Walk
import RegionCapture.Ty
import RegionCapture.Ty.Format
import RegionCapture.Ty.Subst
import RegionCapture.Ty.Unify
import RegionCapture.Proofs.Solve
import RegionCapture.Proofs.Traversal
import RegionCapture.Proofs.Run
import RegionCapture.Proofs.Visit
import RegionCapture.Proofs.Escape
import RegionCapture.Proofs.Instantiation
import RegionCapture.Proofs.Judgement
import RegionCapture.Proofs.Recheck
import RegionCapture.Proofs.OrderIndependence
import RegionCapture.Proofs.Report
import RegionCapture.Proofs.ScopeVerification
import RegionCapture.Proofs.Statistics
import RegionCapture.Proofs.Arrival
import RegionCapture.Proofs.Readable
import RegionCapture.Proofs.Inference
import RegionCapture.Proofs.Faultless
import RegionCapture.Proofs.Origin
import RegionCapture.Proofs.Acceptance
import RegionCapture.Proofs.Lockstep
import RegionCapture.Proofs.OptionIndependence
import RegionCapture.Proofs.Renumbering
import RegionCapture.Proofs.RenumberedUnit
import RegionCapture.Proofs.NumberingIndependence
import RegionCapture.Proofs.Stages
import RegionCapture.Proofs.DefaultOptions
import RegionCapture.Proofs.StoredSignature
import RegionCapture.Proofs.SignatureTable
import RegionCapture.Proofs.SharedDatabase
import RegionCapture.Proofs.ExportHistory
import RegionCapture.Proofs.SolverLoop
import RegionCapture.Proofs.BoundOnce
import RegionCapture.Proofs.DeclaredExtents
import RegionCapture.Proofs.Retention
import RegionCapture.Proofs.ClosureExplanation
import RegionCapture.Proofs.Search
import RegionCapture.Proofs.DepthLimit
import RegionCapture.Proofs.Carriers
import RegionCapture.Proofs.Substitution
import RegionCapture.Proofs.Unification
import RegionCapture.Proofs.NestingLimit
import RegionCapture.Proofs.CollectedSignatures
import RegionCapture.Proofs.TypePrinting
import RegionCapture.Proofs.RenderedTrace
import RegionCapture.Proofs.ListedTypes
import RegionCapture.Proofs.Indentation
import RegionCapture.Proofs.SetAlgebra
