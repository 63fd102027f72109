import StepFlow.Yaml.Reader
import StepFlow.Executor.Builtin
import StepFlow.Expr.Token.Describe
import StepFlow.Model
import StepFlow.Provider
import StepFlow.Registry
import StepFlow.Rehearsal.Document
import StepFlow.Run.Engine
import StepFlow.Settings.Environment
import StepFlow.Tool
import StepFlow.Worklist
import StepFlow.Proofs.Run.Reach
import StepFlow.Proofs.Run.Watch
import StepFlow.Proofs.Run.Snag
import StepFlow.Proofs.Run.Once
import StepFlow.Proofs.Run.Escape
import StepFlow.Proofs.Run.Leg
import StepFlow.Proofs.Expr.Meaning
import StepFlow.Proofs.Expr.Phrase
import StepFlow.Proofs.Expr.Spelling
import StepFlow.Proofs.Expr.Faithful
import StepFlow.Proofs.Expr.Condition
import StepFlow.Proofs.Run.Gain
import StepFlow.Proofs.Run.Queue
import StepFlow.Proofs.Run.Bound
import StepFlow.Proofs.Run.Agreement
import StepFlow.Proofs.Run.Guard
import StepFlow.Proofs.Run.Failure
import StepFlow.Proofs.Run.Lockstep
import StepFlow.Proofs.Run.Limits
import StepFlow.Proofs.Fault
import StepFlow.Proofs.Executor.Errand
import StepFlow.Proofs.Executor.Spending
import StepFlow.Proofs.Run.Spending
import StepFlow.Proofs.Expr.Truth
import StepFlow.Proofs.Definition.Folder
import StepFlow.Proofs.Flow.Audit
import StepFlow.Proofs.Flow.Target
import StepFlow.Proofs.Run.Touch
import StepFlow.Proofs.Run.Sound
import StepFlow.Proofs.Executor.Conduct
import StepFlow.Proofs.Run.Conduct
import StepFlow.Proofs.Run.Names
import StepFlow.Proofs.Expr.Interpolation
import StepFlow.Proofs.Run.Cancellation
import StepFlow.Proofs.Expr.Blank
import StepFlow.Proofs.Json.Strict
import StepFlow.Proofs.Json.Attempts
import StepFlow.Proofs.Json.Prose
import StepFlow.Proofs.Json.Comma
import StepFlow.Proofs.Run.Metrics
import StepFlow.Proofs.Schema.Model
import StepFlow.Proofs.Executor.Fallback
import StepFlow.Proofs.Executor.Pool
import StepFlow.Proofs.Run.ToolUse
import StepFlow.Proofs.Run.Branch
import StepFlow.Proofs.Expr.Failing
import StepFlow.Proofs.Expr.Braces
import StepFlow.Proofs.Worklist
import StepFlow.Proofs.Value.Converse
import StepFlow.Proofs.Expr.Comparison
import StepFlow.Proofs.Json.Writer
import StepFlow.Proofs.Expr.Word
