import StructuralModel.Text.Basic
import StructuralModel.Text.Split
import StructuralModel.Text.Letter
import StructuralModel.Span
import StructuralModel.Relation
import StructuralModel.Table
import StructuralModel.Variables
import StructuralModel.Algebra
import StructuralModel.Diagnostic
import StructuralModel.Diagnostic.Finding
import StructuralModel.Statement
import StructuralModel.Statement.Token
import StructuralModel.Statement.Layout
import StructuralModel.Statement.Form
import StructuralModel.Statement.Validity
import StructuralModel.Statement.Term
import StructuralModel.Heading
import StructuralModel.Model
import StructuralModel.Model.Build
import StructuralModel.Options
import StructuralModel.Model.Completion
import StructuralModel.Model.Identification
import StructuralModel.Model.Compile
import StructuralModel.FileTree
import StructuralModel.CommandLine.Arguments
import StructuralModel.Settings.Toml
import StructuralModel.Diagnostic.Report
import StructuralModel.CommandLine.Run
import StructuralModel.Main
import StructuralModel.Proofs.Text.Depth
import StructuralModel.Proofs.Text.TopLevel
import StructuralModel.Proofs.Text.Nested
import StructuralModel.Proofs.Text.Occurrence
import StructuralModel.Proofs.Text.Pieces
import StructuralModel.Proofs.Text.Numeral
import StructuralModel.Proofs.Appearance
import StructuralModel.Proofs.Algebra
import StructuralModel.Proofs.Statement.Compact
import StructuralModel.Proofs.Statement.Lines
import StructuralModel.Proofs.Heading
import StructuralModel.Proofs.Model.Reading
import StructuralModel.Proofs.Model.Clauses
import StructuralModel.Proofs.Model.Written
import StructuralModel.Proofs.Statement.Form
import StructuralModel.Proofs.Statement.Validity
import StructuralModel.Proofs.Statement.Row
import StructuralModel.Proofs.Model.Completed
import StructuralModel.Proofs.Model.Grounded
import StructuralModel.Proofs.Model.Count
import StructuralModel.Proofs.Model.RoundTrip
import StructuralModel.Proofs.Model.Complete
import StructuralModel.Proofs.Model.Identified
import StructuralModel.Proofs.Model.Recompiled
import StructuralModel.Proofs.Statement.Plain
import StructuralModel.Proofs.Model.Tables
import StructuralModel.Proofs.Model.Described
import StructuralModel.Proofs.Model.Independent
import StructuralModel.Proofs.Statement.Place
import StructuralModel.Proofs.Statement.Placed
import StructuralModel.Proofs.Model.Placed
import StructuralModel.Proofs.Statement.Shifted
import StructuralModel.Proofs.Model.Shifted
import StructuralModel.Proofs.Model.Interleaved
import StructuralModel.Proofs.Model.Steps
import StructuralModel.Proofs.Model.Frame
import StructuralModel.Proofs.Model.Shared
import StructuralModel.Proofs.Model.Malformed
import StructuralModel.Proofs.Statement.Context
import StructuralModel.Proofs.Statement.Token
import StructuralModel.Proofs.Statement.Fault
import StructuralModel.Proofs.CommandLine.Run
import StructuralModel.Proofs.Model.Classes
import StructuralModel.Proofs.Model.Permuted
import StructuralModel.Proofs.Model.WellFormed
import StructuralModel.Proofs.Model.Sums
import StructuralModel.Proofs.Variables
import StructuralModel.Proofs.Model.Appended
import StructuralModel.Proofs.Model.Unjoined
import StructuralModel.Proofs.Model.Saturated
import StructuralModel.Proofs.Model.Outcomes
import StructuralModel.Proofs.Statement.Copied
import StructuralModel.Proofs.Statement.Inserted
import StructuralModel.Proofs.Statement.Joined
import StructuralModel.Proofs.Statement.Outside
import StructuralModel.Proofs.Model.Spelled
import StructuralModel.Proofs.Statement.Grammar
