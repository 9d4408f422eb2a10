import DocTemplate.Diagnostic
import DocTemplate.Text.Letter
import DocTemplate.Number.Shortest
import DocTemplate.Token.Scan
import DocTemplate.Markup.Tokenize
import DocTemplate.Group.Extraction
import DocTemplate.Group.Expansion
import DocTemplate.FileType
import DocTemplate.Program.Parse
import DocTemplate.Program.Nodes
import DocTemplate.Template.Render
import DocTemplate.Expr.Outline
import DocTemplate.Number.Pattern
import DocTemplate.Calendar.Pattern
import DocTemplate.Text.Located
import DocTemplate.Text.Escape
import DocTemplate.Value.Inspect
import DocTemplate.Proofs.Group.Balance
import DocTemplate.Proofs.Group.Departure
import DocTemplate.Proofs.Scope.Invisible
import DocTemplate.Proofs.Expr.Completeness
import DocTemplate.Proofs.Template.Substitution
import DocTemplate.Proofs.Program.Blocks
import DocTemplate.Proofs.Program.Forest
import DocTemplate.Proofs.Group.Fragments
import DocTemplate.Proofs.Group.Verbatim
import DocTemplate.Proofs.Group.Matching
import DocTemplate.Proofs.Template.Parallel
import DocTemplate.Proofs.Output.Repaired
import DocTemplate.Proofs.Template.Literals
import DocTemplate.Proofs.Template.Relocated
import DocTemplate.Proofs.Output.Settled
import DocTemplate.Proofs.Group.Places
import DocTemplate.Proofs.Value.Comparison
import DocTemplate.Proofs.Template.Acyclic
import DocTemplate.Proofs.Template.Failures
import DocTemplate.Proofs.Number.Ordered
import DocTemplate.Proofs.Scope.Globals
import DocTemplate.Proofs.Group.Outermost
import DocTemplate.Proofs.Number.Patterned
import DocTemplate.Proofs.Number.Quotient
import DocTemplate.Proofs.Number.Wrapped
import DocTemplate.Proofs.Output.Reopened
import DocTemplate.Proofs.Text.Quotation
import DocTemplate.Proofs.Number.Totals
import DocTemplate.Proofs.Number.Casts
import DocTemplate.Proofs.Run.Calls
import DocTemplate.Proofs.Text.Lines
import DocTemplate.Proofs.Group.Coverage
import DocTemplate.Proofs.Program.Spans
