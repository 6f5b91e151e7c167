import Grimace.Main
import Grimace.Wire.Action
import Grimace.Proofs.Except
import Grimace.Proofs.Binary64.Range
import Grimace.Proofs.Json.Literal
import Grimace.Proofs.Json.Quoted
import Grimace.Proofs.Json.Written
import Grimace.Proofs.Json.Decode
import Grimace.Proofs.Profile.Map
import Grimace.Proofs.Store.RoundTrip
import Grimace.Proofs.Rule.Debounce
import Grimace.Proofs.Session.Invariant
import Grimace.Proofs.Session.Predicate
import Grimace.Proofs.Frame.Account
import Grimace.Proofs.Frame.Replay
import Grimace.Proofs.Session.Dispatch
import Grimace.Proofs.Session.Indifference
import Grimace.Proofs.Session.Replay
import Grimace.Proofs.Frame.Independence
import Grimace.Proofs.Frame.Arrangement
import Grimace.Proofs.Expr.Grammar
import Grimace.Proofs.Expr.Sound
import Grimace.Proofs.Expr.Complete
import Grimace.Proofs.Session.Saving
import Grimace.Proofs.Session.Reload
import Grimace.Proofs.Session.Restart
import Grimace.Proofs.Session.Skip
import Grimace.Proofs.Session.Place
import Grimace.Proofs.Session.Broken
import Grimace.Proofs.Expr.Cursor
import Grimace.Proofs.Expr.Checked
import Grimace.Proofs.Expr.Alike
import Grimace.Proofs.Frame.CarriedOut
import Grimace.Proofs.Http.Requests
import Grimace.Proofs.Http.Lockstep
import Grimace.Proofs.Http.Published
import Grimace.Proofs.Expr.Reads
import Grimace.Proofs.Session.Untouched
import Grimace.Proofs.Text.Reading
import Grimace.Proofs.Action.Grammar
import Grimace.Proofs.Session.InPlace
import Grimace.Proofs.Http.Refusals
import Grimace.Proofs.Session.Program
import Grimace.Proofs.Expr.Trial
import Grimace.Proofs.Expr.Nesting
import Grimace.Proofs.Expr.TooDeep
import Grimace.Proofs.Expr.Watched
import Grimace.Proofs.Expr.Counter
import Grimace.Proofs.Expr.Stack
import Grimace.Proofs.Diagnostic.Backlog
import Grimace.Proofs.Session.Findings
import Grimace.Proofs.Session.Normalizing
import Grimace.Proofs.CommandLine.Check
import Grimace.Proofs.Rule.Crossing
import Grimace.Proofs.Session.Crossing
import Grimace.Proofs.Action.Shown
import Grimace.Proofs.Expr.Membership
import Grimace.Proofs.Expr.Spelling
import Grimace.Proofs.Expr.Layout
import Grimace.Proofs.Expr.SafeNavigation
import Grimace.Proofs.Expr.Continued
import Grimace.Proofs.Expr.ViablePrefix
import Grimace.Proofs.Session.ReportLine
import Grimace.Proofs.Wire.RoundTrip
import Grimace.Proofs.Frame.Collected
import Grimace.Proofs.Session.Scored
