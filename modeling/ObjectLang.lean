import ObjectLang.Check.Checker
import ObjectLang.Decimal.Division
import ObjectLang.Decimal.Reading
import ObjectLang.Decimal.Text
import ObjectLang.Diagnostic
import ObjectLang.Eval.Run
import ObjectLang.Json.Reader
import ObjectLang.Json.Writer
import ObjectLang.Program.Basic
import ObjectLang.Program.Build
import ObjectLang.Program.Decode
import ObjectLang.Program.Equality
import ObjectLang.Proofs.Acyclicity
import ObjectLang.Proofs.Agreement
import ObjectLang.Proofs.Binding
import ObjectLang.Proofs.CallSafety
import ObjectLang.Proofs.Check.Accepted
import ObjectLang.Proofs.Check.Effect
import ObjectLang.Proofs.Check.Growth
import ObjectLang.Proofs.Check.Guard
import ObjectLang.Proofs.Check.Members
import ObjectLang.Proofs.Check.Scoping
import ObjectLang.Proofs.Check.Sealed
import ObjectLang.Proofs.Check.Sealing
import ObjectLang.Proofs.Check.Trace
import ObjectLang.Proofs.Check.Unmentioned
import ObjectLang.Proofs.CheckedWrites
import ObjectLang.Proofs.Comparison
import ObjectLang.Proofs.Decimal.Division
import ObjectLang.Proofs.Decimal.Interchange
import ObjectLang.Proofs.Decimal.Order
import ObjectLang.Proofs.Decimal.Reading
import ObjectLang.Proofs.Decimal.Text
import ObjectLang.Proofs.Equality
import ObjectLang.Proofs.Eval.Blocks
import ObjectLang.Proofs.Eval.Charging
import ObjectLang.Proofs.Eval.Completed
import ObjectLang.Proofs.Eval.Entry
import ObjectLang.Proofs.Eval.Fuel
import ObjectLang.Proofs.Eval.Growth
import ObjectLang.Proofs.Eval.Guard
import ObjectLang.Proofs.Eval.Ledger
import ObjectLang.Proofs.Eval.Limits
import ObjectLang.Proofs.Eval.Lockstep
import ObjectLang.Proofs.Eval.Meter
import ObjectLang.Proofs.Eval.Moves
import ObjectLang.Proofs.Eval.Naming
import ObjectLang.Proofs.Eval.Obedience
import ObjectLang.Proofs.Eval.Origin
import ObjectLang.Proofs.Eval.Plan
import ObjectLang.Proofs.Eval.Printing
import ObjectLang.Proofs.Eval.Region
import ObjectLang.Proofs.Eval.Rendering
import ObjectLang.Proofs.Eval.Results
import ObjectLang.Proofs.Eval.Scoping
import ObjectLang.Proofs.Eval.Trace
import ObjectLang.Proofs.Eval.Typing
import ObjectLang.Proofs.Eval.Unmentioned
import ObjectLang.Proofs.Eval.Yields
import ObjectLang.Proofs.FieldTyping
import ObjectLang.Proofs.Immutability
import ObjectLang.Proofs.Interchange
import ObjectLang.Proofs.Iteration
import ObjectLang.Proofs.Json.RoundTrip
import ObjectLang.Proofs.Json.Scanning
import ObjectLang.Proofs.MemberOrder
import ObjectLang.Proofs.Metering
import ObjectLang.Proofs.ObjectGraph
import ObjectLang.Proofs.ObjectShape
import ObjectLang.Proofs.OperatorTyping
import ObjectLang.Proofs.Outcome
import ObjectLang.Proofs.Program.Decimals
import ObjectLang.Proofs.Program.Decoding
import ObjectLang.Proofs.Program.FirstOrder
import ObjectLang.Proofs.Program.Initialized
import ObjectLang.Proofs.Program.Isolated
import ObjectLang.Proofs.Program.Plain
import ObjectLang.Proofs.Program.Scoped
import ObjectLang.Proofs.Program.Trim
import ObjectLang.Proofs.Program.Untyped
import ObjectLang.Proofs.Program.Vocabulary
import ObjectLang.Proofs.ReturnTypes
import ObjectLang.Proofs.Returns
import ObjectLang.Proofs.Scope.Growth
import ObjectLang.Proofs.Scope.History
import ObjectLang.Proofs.Scope.Operations
import ObjectLang.Proofs.Scope.Surplus
import ObjectLang.Proofs.ScopeRefinement
import ObjectLang.Proofs.Sequence
import ObjectLang.Proofs.Subtyping
import ObjectLang.Proofs.Tasks
import ObjectLang.Proofs.Termination
import ObjectLang.Proofs.Trace
import ObjectLang.Proofs.Transparency
import ObjectLang.Proofs.TypeSoundness
import ObjectLang.Proofs.TypeSystem
import ObjectLang.Proofs.TypeSystem.Acyclic
import ObjectLang.Proofs.TypeSystem.Completeness
import ObjectLang.Proofs.TypeSystem.Identities
import ObjectLang.Proofs.TypeSystem.Introduction
import ObjectLang.Proofs.TypeSystem.Lookup
import ObjectLang.Proofs.TypeSystem.Realization
import ObjectLang.Proofs.TypeSystem.Renaming
import ObjectLang.Proofs.TypeSystem.Rules
import ObjectLang.Proofs.TypeSystem.Scopes
import ObjectLang.Proofs.TypeSystem.Soundness
import ObjectLang.Proofs.TypeSystem.Written
import ObjectLang.Proofs.TypeText
import ObjectLang.Proofs.Typed.Erasure
import ObjectLang.Proofs.Typed.Steady
import ObjectLang.Proofs.Typed.Types
import ObjectLang.Proofs.Unmentioned
import ObjectLang.Proofs.Value.Admission
import ObjectLang.Proofs.Value.Missing
import ObjectLang.Proofs.Value.Sameness
import ObjectLang.Proofs.Value.Typing
import ObjectLang.Scope.Store
import ObjectLang.Scope.Text
import ObjectLang.Text.Quoted
import ObjectLang.Typed.Encode
import ObjectLang.Typed.Equality
