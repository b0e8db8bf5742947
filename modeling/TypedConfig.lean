import TypedConfig.Main
import TypedConfig.CommandLine.Store
import TypedConfig.Proofs.Resolution.Cycle
import TypedConfig.Proofs.Resolution.Idempotence
import TypedConfig.Proofs.Resolution.KeyOrder
import TypedConfig.Proofs.Resolution.ParserCalls
import TypedConfig.Proofs.Resolution.Rearranged
import TypedConfig.Proofs.Resolution.Termination
import TypedConfig.Proofs.Resolution.Explanation
import TypedConfig.Proofs.Resolution.Reason
import TypedConfig.Proofs.Tree.Outline
import TypedConfig.Proofs.Resolution.Dependence
import TypedConfig.Proofs.Tree.Matches
import TypedConfig.Proofs.Schema.Legal
import TypedConfig.Proofs.Schema.Reading
import TypedConfig.Proofs.Schema.Acceptance
import TypedConfig.Proofs.Resolution.ReadBack
import TypedConfig.Proofs.Expression.Arithmetic
import TypedConfig.Proofs.Expression.Logic
import TypedConfig.Proofs.Template.Render
import TypedConfig.Proofs.Calendar.DayNumber
import TypedConfig.Proofs.Calendar.WholeDays
import TypedConfig.Proofs.DateExpr.Shift
import TypedConfig.Proofs.DateExpr.NearestWeekday
import TypedConfig.Proofs.Text.Words
import TypedConfig.Proofs.DateExpr.WrittenStep
import TypedConfig.Proofs.DateExpr.Chain
import TypedConfig.Proofs.DateExpr.TimeOfDay
import TypedConfig.Proofs.Expression.WholeResult
import TypedConfig.Proofs.Expression.PlainInteger
import TypedConfig.Proofs.Resolution.Alias
import TypedConfig.Proofs.Tree.Addresses
import TypedConfig.Proofs.Schema.Descent
import TypedConfig.Proofs.Tree.Origins
import TypedConfig.Proofs.Decimal.LargeWord
import TypedConfig.Proofs.Resolution.ContainerDefaults
import TypedConfig.Proofs.Resolution.FreeForm
import TypedConfig.Proofs.Expression.FaultPosition
import TypedConfig.Proofs.Template.Escaped
import TypedConfig.Proofs.CommandLine.Assignments
import TypedConfig.Proofs.CommandLine.Results
import TypedConfig.Proofs.Template.SoleReference
import TypedConfig.Proofs.Tree.ArenaWellFormed
import TypedConfig.Proofs.Resolution.ArenaRun
