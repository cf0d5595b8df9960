import Reckoner.Calculator
import Reckoner.Proofs.Grammar
import Reckoner.Proofs.Grammar.Outcome
import Reckoner.Proofs.Grammar.Soundness
import Reckoner.Proofs.Grammar.Completeness
import Reckoner.Proofs.Grammar.Recognition
import Reckoner.Proofs.Grammar.Leaves
import Reckoner.Proofs.Folding.Evaluation
import Reckoner.Proofs.Folding.NormalForm
import Reckoner.Proofs.Cache.Transparency
import Reckoner.Proofs.Cache.Contents
import Reckoner.Proofs.Number.Canonical
import Reckoner.Proofs.Number.Exact
import Reckoner.Proofs.Number.ReadBack
import Reckoner.Proofs.Number.Sign
import Reckoner.Proofs.Scan.Contents
import Reckoner.Proofs.Scan.Repair
import Reckoner.Proofs.Scan.Lexemes
import Reckoner.Proofs.RoundTrip.Explicit
import Reckoner.Proofs.RoundTrip.Text
import Reckoner.Proofs.RoundTrip.Reading
import Reckoner.Proofs.RoundTrip.Limit
import Reckoner.Proofs.Scan.Places
import Reckoner.Proofs.Evaluation.Checks
import Reckoner.Proofs.Grammar.DepthLimit
import Reckoner.Proofs.Quoting
import Reckoner.Proofs.Scan.Warnings
import Reckoner.Proofs.Scan.FirstAnomaly
import Reckoner.Proofs.Grammar.FirstFault
import Reckoner.Proofs.Evaluation.Variables
import Reckoner.Proofs.RoundTrip.Folded
import Reckoner.Proofs.Scan.Locality
import Reckoner.Proofs.Composition
import Reckoner.Proofs.Scan.Segments
import Reckoner.Proofs.Log
import Reckoner.Proofs.Names.Nodes
import Reckoner.Proofs.Names.Collection
import Reckoner.Proofs.Formula.Binding
import Reckoner.Proofs.Formula.Failure
import Reckoner.Proofs.Formula.OwnVariables
import Reckoner.Proofs.Comparison
import Reckoner.Proofs.Folding.Irreducible
import Reckoner.Proofs.Folding.Names
import Reckoner.Proofs.Number.Value
import Reckoner.Proofs.Number.HalfUp
import Reckoner.Proofs.Number.Order
import Reckoner.Proofs.Number.Extremum
import Reckoner.Proofs.ByteScan.Text
import Reckoner.Proofs.ByteScan.Machine
import Reckoner.Proofs.ByteScan.Found
import Reckoner.Proofs.ByteScan.Steps
import Reckoner.Proofs.ByteScan.Safety
import Reckoner.Proofs.Descent.Calls
import Reckoner.Proofs.Descent.Rules
import Reckoner.Proofs.Descent.Invariant
import Reckoner.Proofs.DepthLimit
