import StringReach.Main
import StringReach.Timer
import StringReach.Proofs.Acyclic
import StringReach.Proofs.Algebra
import StringReach.Proofs.Derivation
import StringReach.Proofs.Layout
import StringReach.Proofs.Collection
import StringReach.Proofs.Reachability
import StringReach.Proofs.Resolution
import StringReach.Proofs.Discovery
import StringReach.Proofs.Run
import StringReach.Proofs.Convergence
import StringReach.Proofs.SingleAssignment
import StringReach.Proofs.Execution
import StringReach.Proofs.Meaning
import StringReach.Proofs.OrderIndependence
import StringReach.Proofs.Precision
import StringReach.Proofs.Protocol
import StringReach.Proofs.Violations
import StringReach.Proofs.Imprecision
import StringReach.Proofs.Growth
import StringReach.Term.Session
import StringReach.Proofs.Session
import StringReach.Proofs.Rounds
import StringReach.Proofs.PointOrder
import StringReach.Proofs.Tracking
import StringReach.Proofs.DumpAgreement
import StringReach.Proofs.Isolation
import StringReach.Proofs.Justification
import StringReach.Proofs.RoundTrip
import StringReach.Proofs.Tree
import StringReach.Proofs.Evaluation
import StringReach.Proofs.Visits
import StringReach.Proofs.Reaching
import StringReach.Proofs.Termination
import StringReach.Proofs.Locality
import StringReach.Proofs.LoopUnrolling
import StringReach.Proofs.ClosingCycles
import StringReach.Proofs.BreadthFirst
import StringReach.Proofs.FieldWrites
import StringReach.Proofs.Expressions
import StringReach.Proofs.PatternInstances
import StringReach.Proofs.RepeatedWrites
import StringReach.Proofs.Quoting
import StringReach.Proofs.Readability
import StringReach.Proofs.Spellings
