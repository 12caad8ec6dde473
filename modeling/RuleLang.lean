import RuleLang.Main
import RuleLang.Session
import RuleLang.Proofs.Item.Tiling
import RuleLang.Proofs.Expr.Printing
import RuleLang.Proofs.Rule.Inlining
import RuleLang.Proofs.Expr.Lookahead
import RuleLang.Proofs.Rule.Safety
import RuleLang.Proofs.Expr.Fault
import RuleLang.Proofs.Item.Location
import RuleLang.Proofs.Item.Report
import RuleLang.Proofs.Item.Progress
import RuleLang.Proofs.Expr.Parts
import RuleLang.Proofs.Rule.Accounting
import RuleLang.Proofs.Expr.Depth
import RuleLang.Proofs.Rule.Limits
import RuleLang.Proofs.CommandLine.Lines
import RuleLang.Proofs.Rule.Mentions
import RuleLang.Proofs.CommandLine.Arguments
import RuleLang.Proofs.CommandLine.Runs
import RuleLang.Proofs.Item.Joining
import RuleLang.Proofs.Rule.Spacing
import RuleLang.Proofs.CommandLine.Values
import RuleLang.Proofs.CommandLine.Logging
import RuleLang.Proofs.Expr.Reached
import RuleLang.Proofs.Rule.Chains
import RuleLang.Proofs.Rule.Grouping
import RuleLang.Proofs.Expr.Origin
import RuleLang.Proofs.Text.Numeral
import RuleLang.Proofs.Expr.Relations
import RuleLang.Proofs.CommandLine.Printed
import RuleLang.Proofs.CommandLine.Output
import RuleLang.Proofs.Rule.Position
import RuleLang.Proofs.Rule.Height
