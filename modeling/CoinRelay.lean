import CoinRelay.Chain
import CoinRelay.Host.FileTree
import CoinRelay.Main
import CoinRelay.Proofs.Json.DoubleLiteral
import CoinRelay.Proofs.Json.Quoted
import CoinRelay.Proofs.Json.RoundTrip
import CoinRelay.Proofs.Text.Trimmed
import CoinRelay.Proofs.Json.Members
import CoinRelay.Proofs.Chain.Calls
import CoinRelay.Proofs.Chain.Conservation
import CoinRelay.Proofs.Json.Parsed
import CoinRelay.Proofs.Outcome.Wire
import CoinRelay.Proofs.Relay.Steps
import CoinRelay.Proofs.Relay.Written
import CoinRelay.Proofs.Relay.Reported
import CoinRelay.Proofs.Relay.Received
import CoinRelay.Proofs.Relay.OwnCalls
import CoinRelay.Proofs.Chain.Transparency
import CoinRelay.Proofs.Chain.SpendBundles
import CoinRelay.Proofs.Chain.Termination
import CoinRelay.Proofs.Chain.Acceptance
import CoinRelay.Proofs.Outcome.Replies
import CoinRelay.Proofs.Outcome.Nulls
import CoinRelay.Proofs.Relay.Forwarded
import CoinRelay.Proofs.Relay.Signed
import CoinRelay.Proofs.Planner.Limits
import CoinRelay.Proofs.Planner.Plans
import CoinRelay.Proofs.Config.Restart
import CoinRelay.Proofs.Planner.Greedy
import CoinRelay.Proofs.Planner.Fees
import CoinRelay.Proofs.Planner.Watermarks
import CoinRelay.Proofs.Planner.Allowances
import CoinRelay.Proofs.Planner.Replenishing
import CoinRelay.Proofs.Handoff.Rereading
import CoinRelay.Proofs.Coins.Sufficiency
import CoinRelay.Proofs.Coins.Spelled
import CoinRelay.Proofs.Relay.Normal
import CoinRelay.Proofs.Relay.Influence
import CoinRelay.Proofs.Handoff.Ranked
import CoinRelay.Proofs.Relay.FirstFailure
import CoinRelay.Proofs.Config.Precedence
import CoinRelay.Proofs.Outcome.Agreement
import CoinRelay.Proofs.Text.Utf8
import CoinRelay.Proofs.Json.Grammar
import CoinRelay.Proofs.Json.Accepted
import CoinRelay.Proofs.Json.Printed
import CoinRelay.Proofs.Planner.Inputs
import CoinRelay.Proofs.Program.Answers
import CoinRelay.Proofs.Keyring.Expansion
import CoinRelay.Proofs.Text.Words
