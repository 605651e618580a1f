import StructuralDiff.FactBase
import StructuralDiff.OptionFile
import StructuralDiff.Proofs.Types.Traversal
import StructuralDiff.RawArguments
import StructuralDiff.Types.Term
import StructuralDiff.Proofs.Types.Chains
import StructuralDiff.Proofs.Types.Runs
import StructuralDiff.Proofs.Types.Termination
import StructuralDiff.Proofs.Types.Reached
import StructuralDiff.Proofs.Types.Copies
import StructuralDiff.Proofs.Types.Principal
import StructuralDiff.Proofs.Types.Equivariance
import StructuralDiff.Proofs.Types.Independence
import StructuralDiff.Proofs.Source.Scan
import StructuralDiff.Proofs.Source.Readiness
import StructuralDiff.Proofs.Source.Leaves
import StructuralDiff.Proofs.Source.Sessions
import StructuralDiff.Proofs.Source.Draining
import StructuralDiff.Proofs.Source.Simplification
import StructuralDiff.Proofs.Source.Remembered
import StructuralDiff.Proofs.Catalog.Registrations
import StructuralDiff.Proofs.Facts.Inserts
import StructuralDiff.Proofs.Types.Equations
import StructuralDiff.Proofs.Source.Sites
import StructuralDiff.Proofs.Source.Exhaustion
import StructuralDiff.Proofs.Source.Fairness
import StructuralDiff.Proofs.Arguments.Groups
import StructuralDiff.Proofs.Source.Concatenation
import StructuralDiff.Proofs.Source.Stability
import StructuralDiff.Proofs.Text.Pieces
import StructuralDiff.Proofs.Text.Brackets
import StructuralDiff.Proofs.Arguments.Reading
import StructuralDiff.Proofs.Arguments.Nesting
import StructuralDiff.Proofs.Types.Resolution
import StructuralDiff.Proofs.Types.Reachability
import StructuralDiff.Proofs.Types.Freshness
import StructuralDiff.Proofs.Facts.Refusals
import StructuralDiff.Proofs.Facts.Families
import StructuralDiff.Proofs.Predicate.Templates
import StructuralDiff.Proofs.Text.Offsets
import StructuralDiff.Proofs.Arguments.Slicing
import StructuralDiff.Proofs.Arguments.Conversion
import StructuralDiff.Proofs.Arguments.Plain
import StructuralDiff.Proofs.Predicate.Grammar
import StructuralDiff.Proofs.Catalog.Siblings
import StructuralDiff.Proofs.Catalog.ClassLevel
import StructuralDiff.Proofs.Predicate.Display
import StructuralDiff.Proofs.Pairing.Options
import StructuralDiff.Proofs.Variables.UnusedNames
import StructuralDiff.Proofs.Arguments.OnePass
import StructuralDiff.Proofs.Types.Saturation
import StructuralDiff.Proofs.Types.Operations
import StructuralDiff.Proofs.Source.Suspensions
import StructuralDiff.Proofs.Catalog.Directory
import StructuralDiff.Proofs.Options.Reading
