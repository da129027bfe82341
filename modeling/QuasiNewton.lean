import QuasiNewton.Arithmetic
import QuasiNewton.Decimal.Binary
import QuasiNewton.Decimal.Reading
import QuasiNewton.Decimal.Scientific
import QuasiNewton.Decimal.Shortest
import QuasiNewton.Fault
import QuasiNewton.Formula
import QuasiNewton.LineSearch
import QuasiNewton.Machine.Arithmetic
import QuasiNewton.Machine.ComplexExponential
import QuasiNewton.Machine.ComplexRoot
import QuasiNewton.Machine.Double
import QuasiNewton.Machine.Element
import QuasiNewton.Machine.Elementary
import QuasiNewton.Machine.Hypotenuse
import QuasiNewton.Machine.Kind
import QuasiNewton.Machine.Number
import QuasiNewton.Machine.Numerals
import QuasiNewton.Machine.Precision
import QuasiNewton.Magnitudes
import QuasiNewton.Norm
import QuasiNewton.Options
import QuasiNewton.Proofs.Abreast
import QuasiNewton.Proofs.Affine
import QuasiNewton.Proofs.Agreement
import QuasiNewton.Proofs.Allowances
import QuasiNewton.Proofs.Attempts
import QuasiNewton.Proofs.Averages
import QuasiNewton.Proofs.Beginnings
import QuasiNewton.Proofs.Bounds
import QuasiNewton.Proofs.Broyden
import QuasiNewton.Proofs.Budget
import QuasiNewton.Proofs.Checks
import QuasiNewton.Proofs.Conditions
import QuasiNewton.Proofs.Consistency
import QuasiNewton.Proofs.ConstantResiduals
import QuasiNewton.Proofs.Corrections
import QuasiNewton.Proofs.Counters
import QuasiNewton.Proofs.Criteria
import QuasiNewton.Proofs.Custody
import QuasiNewton.Proofs.Endings
import QuasiNewton.Proofs.Engines
import QuasiNewton.Proofs.Equivariance
import QuasiNewton.Proofs.EventLog
import QuasiNewton.Proofs.Events
import QuasiNewton.Proofs.Failures
import QuasiNewton.Proofs.Fallback
import QuasiNewton.Proofs.FixedSteps
import QuasiNewton.Proofs.Frames
import QuasiNewton.Proofs.Histories
import QuasiNewton.Proofs.Infinities
import QuasiNewton.Proofs.Interruptions
import QuasiNewton.Proofs.Invariants
import QuasiNewton.Proofs.Judgements
import QuasiNewton.Proofs.Keeping
import QuasiNewton.Proofs.Kinds
import QuasiNewton.Proofs.LinearSolves
import QuasiNewton.Proofs.LinearSystems
import QuasiNewton.Proofs.Lines
import QuasiNewton.Proofs.Lockstep
import QuasiNewton.Proofs.Maps
import QuasiNewton.Proofs.Mirrors
import QuasiNewton.Proofs.Narration
import QuasiNewton.Proofs.Nearest
import QuasiNewton.Proofs.Negligible
import QuasiNewton.Proofs.Nonfinite
import QuasiNewton.Proofs.Operations
import QuasiNewton.Proofs.Ordered
import QuasiNewton.Proofs.Orders
import QuasiNewton.Proofs.Outcomes
import QuasiNewton.Proofs.Parallel
import QuasiNewton.Proofs.Plateaus
import QuasiNewton.Proofs.Progress
import QuasiNewton.Proofs.Pursuits
import QuasiNewton.Proofs.Readings
import QuasiNewton.Proofs.Refusals
import QuasiNewton.Proofs.Regular
import QuasiNewton.Proofs.Relabelling
import QuasiNewton.Proofs.Renewal
import QuasiNewton.Proofs.Restarts
import QuasiNewton.Proofs.Rounding
import QuasiNewton.Proofs.Rules
import QuasiNewton.Proofs.Scalars
import QuasiNewton.Proofs.ScaledIdentity
import QuasiNewton.Proofs.Scratch
import QuasiNewton.Proofs.SecantMethod
import QuasiNewton.Proofs.Sizes
import QuasiNewton.Proofs.Solves
import QuasiNewton.Proofs.Stable
import QuasiNewton.Proofs.Stepping
import QuasiNewton.Proofs.Storage
import QuasiNewton.Proofs.Success
import QuasiNewton.Proofs.Symmetries
import QuasiNewton.Proofs.Tolerances
import QuasiNewton.Proofs.Trails
import QuasiNewton.Proofs.Trajectories
import QuasiNewton.Proofs.Updates
import QuasiNewton.Proofs.Verbosity
import QuasiNewton.Proofs.Verdicts
import QuasiNewton.Proofs.Visits
import QuasiNewton.Proofs.Wholes
import QuasiNewton.Proofs.Workable
import QuasiNewton.Proofs.WorkingKinds
import QuasiNewton.Report
import QuasiNewton.ResetCheck
import QuasiNewton.Residual
import QuasiNewton.Secant
import QuasiNewton.Setting
import QuasiNewton.Shape
import QuasiNewton.Solver.Run
import QuasiNewton.Solver.Session
import QuasiNewton.Solver.Start
import QuasiNewton.Solver.Step
import QuasiNewton.Solver.Workspace
import QuasiNewton.Statistics
import QuasiNewton.Status
import QuasiNewton.Tensor.Basic
import QuasiNewton.Tensor.Elementwise
import QuasiNewton.Tensor.Linear
import QuasiNewton.Tensor.Product
import QuasiNewton.Tensor.Written
import QuasiNewton.Termination.Condition
import QuasiNewton.Termination.Monitor
import QuasiNewton.Text.Digit
import QuasiNewton.Text.Hidden
import QuasiNewton.Text.Quoted
import QuasiNewton.Text.Ranges
import QuasiNewton.Transcript
