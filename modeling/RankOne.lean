import RankOne.Build.Component
import RankOne.Build.Program
import RankOne.Build.Run
import RankOne.Build.Statement
import RankOne.Build.Workspace
import RankOne.Circuit.Basic
import RankOne.Circuit.Order
import RankOne.Decimal.Binary
import RankOne.Decimal.Places
import RankOne.Decimal.Shortest
import RankOne.Draft
import RankOne.Error
import RankOne.Expr.Algebra
import RankOne.Expr.Basic
import RankOne.Expr.Clash
import RankOne.Expr.Rows
import RankOne.Field.Basic
import RankOne.Field.Primality
import RankOne.Gadget.Bits
import RankOne.Gadget.Case
import RankOne.Gadget.Catalogue
import RankOne.Gadget.Indicator
import RankOne.Gadget.Select
import RankOne.Gadget.Series
import RankOne.Hint
import RankOne.Log
import RankOne.Position
import RankOne.Proofs.Build.Attribution
import RankOne.Proofs.Build.Child
import RankOne.Proofs.Build.Components
import RankOne.Proofs.Build.Declared
import RankOne.Proofs.Build.Effect
import RankOne.Proofs.Build.Finish
import RankOne.Proofs.Build.Hearing
import RankOne.Proofs.Build.Ledger
import RankOne.Proofs.Build.Nested
import RankOne.Proofs.Build.Policy
import RankOne.Proofs.Build.References
import RankOne.Proofs.Build.Rows
import RankOne.Proofs.Build.Run
import RankOne.Proofs.Build.Scene
import RankOne.Proofs.Build.Sound
import RankOne.Proofs.Build.Statement
import RankOne.Proofs.Build.Succeeds
import RankOne.Proofs.Build.Trace
import RankOne.Proofs.Build.Tree
import RankOne.Proofs.Circuit.Arranged
import RankOne.Proofs.Circuit.Attribution
import RankOne.Proofs.Circuit.Coherent
import RankOne.Proofs.Circuit.Compiles
import RankOne.Proofs.Circuit.Cycle
import RankOne.Proofs.Circuit.Dangling
import RankOne.Proofs.Circuit.Dense
import RankOne.Proofs.Circuit.Determined
import RankOne.Proofs.Circuit.Direction
import RankOne.Proofs.Circuit.Exchange
import RankOne.Proofs.Circuit.Instances
import RankOne.Proofs.Circuit.Layout
import RankOne.Proofs.Circuit.Marked
import RankOne.Proofs.Circuit.Meaning
import RankOne.Proofs.Circuit.Order
import RankOne.Proofs.Circuit.Paths
import RankOne.Proofs.Circuit.Preservation
import RankOne.Proofs.Circuit.Reads
import RankOne.Proofs.Circuit.Realized
import RankOne.Proofs.Circuit.Relabel
import RankOne.Proofs.Circuit.Schedule
import RankOne.Proofs.Circuit.Sparse
import RankOne.Proofs.Circuit.Strict
import RankOne.Proofs.Draft
import RankOne.Proofs.Expr.Built
import RankOne.Proofs.Expr.Canonical
import RankOne.Proofs.Expr.Clash
import RankOne.Proofs.Expr.Difference
import RankOne.Proofs.Expr.Fold
import RankOne.Proofs.Expr.Homomorphism
import RankOne.Proofs.Expr.Proportion
import RankOne.Proofs.Expr.Ratio
import RankOne.Proofs.Expr.Row
import RankOne.Proofs.Expr.Shared
import RankOne.Proofs.Expr.Sum
import RankOne.Proofs.Expr.Value
import RankOne.Proofs.Field
import RankOne.Proofs.Gadget.Cases
import RankOne.Proofs.Gadget.Catalogue
import RankOne.Proofs.Gadget.Choose
import RankOne.Proofs.Gadget.Comparators
import RankOne.Proofs.Gadget.Compare
import RankOne.Proofs.Gadget.Decode
import RankOne.Proofs.Gadget.Digits
import RankOne.Proofs.Gadget.Equality
import RankOne.Proofs.Gadget.Indicator
import RankOne.Proofs.Gadget.Leaves
import RankOne.Proofs.Gadget.Multiplex
import RankOne.Proofs.Gadget.Parents
import RankOne.Proofs.Gadget.Selectors
import RankOne.Proofs.Gadget.Sequences
import RankOne.Proofs.Gadget.Swap
import RankOne.Proofs.Gadget.Unpack
import RankOne.Proofs.Script.Calls
import RankOne.Proofs.System
import RankOne.Proofs.Value.Operators
import RankOne.Proofs.Value.Static
import RankOne.Proofs.Witness.Adversary
import RankOne.Proofs.Witness.Boundary
import RankOne.Proofs.Witness.Honest
import RankOne.Proofs.Witness.Input
import RankOne.Proofs.Witness.Interference
import RankOne.Proofs.Witness.Leaves
import RankOne.Proofs.Witness.Names
import RankOne.Proofs.Witness.Public
import RankOne.Proofs.Witness.Realized
import RankOne.Proofs.Witness.Relabel
import RankOne.Proofs.Witness.Repeated
import RankOne.Proofs.Witness.Rules
import RankOne.Proofs.Witness.Safe
import RankOne.Proofs.Witness.Solution
import RankOne.Proofs.Witness.Supply
import RankOne.Script.Advisor
import RankOne.Script.Clash
import RankOne.Script.Evaluate
import RankOne.Script.Execute
import RankOne.Script.Read
import RankOne.Script.Routine
import RankOne.Script.Session
import RankOne.Script.Term
import RankOne.Settings
import RankOne.Signal
import RankOne.System
import RankOne.Text.Digit
import RankOne.Text.Printable
import RankOne.Text.Quoted
import RankOne.Text.Sheet
import RankOne.Value.Basic
import RankOne.Value.Cast
import RankOne.Value.Convert
import RankOne.Value.Element
import RankOne.Value.Equality
import RankOne.Value.Fixed
import RankOne.Value.Grid
import RankOne.Value.Number
import RankOne.Value.Operators
import RankOne.Value.Percent
import RankOne.Witness.Evaluate
import RankOne.Witness.Input
import RankOne.Witness.Trial
