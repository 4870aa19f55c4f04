import Sexpr.Text.Blank
import Sexpr.Text.Escape
import Sexpr.Position
import Sexpr.Cursor
import Sexpr.Value
import Sexpr.Fault
import Sexpr.Read.Literal
import Sexpr.Read.State
import Sexpr.Read.Expr
import Sexpr.Layout
import Sexpr.Print
import Sexpr.Format
import Sexpr.CommandLine
import Sexpr.Main
import Sexpr.Proofs.Position
import Sexpr.Proofs.Cursor
import Sexpr.Proofs.Escape
import Sexpr.Proofs.Read.Dispatch
import Sexpr.Proofs.Read.Tokens
import Sexpr.Proofs.RoundTrip
import Sexpr.Proofs.Read.Limit
import Sexpr.Proofs.Reformat
import Sexpr.Proofs.Read.Calls
import Sexpr.Proofs.Read.Faults
import Sexpr.Proofs.Read.Nothing
import Sexpr.Proofs.Read.Lookahead
import Sexpr.Proofs.Read.Progress
import Sexpr.Proofs.Indentation
import Sexpr.Proofs.Read.Leaves
import Sexpr.Proofs.Cursor.FirstStop
