import TwoSorted.Main
import TwoSorted.Proofs.Parser.BreakOff
import TwoSorted.Proofs.Parser.Lookahead
import TwoSorted.Proofs.Parser.Pushback
import TwoSorted.Proofs.Parser.Refusal
import TwoSorted.Proofs.Parser.RoundTrip
import TwoSorted.Proofs.Parser.Spacing
import TwoSorted.Proofs.Parser.Stability
import TwoSorted.Proofs.Session.Pending
import TwoSorted.Proofs.Settings.Precedence
import TwoSorted.Proofs.Token.Exhaustion
import TwoSorted.Proofs.Token.NumberValue
import TwoSorted.Proofs.Token.Positions
import TwoSorted.Proofs.Typing.Contexts
import TwoSorted.Proofs.Typing.FailFast
import TwoSorted.Proofs.Typing.Names
import TwoSorted.Proofs.Typing.Recursion
import TwoSorted.Proofs.Typing.Stack
import TwoSorted.Proofs.Verdict.Answers
import TwoSorted.Proofs.Verdict.FrontEnds
