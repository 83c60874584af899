import Licensing.Background.Pool
import Licensing.Http.Serving
import Licensing.Journal
import Licensing.Main
import Licensing.Settings.Description
import Licensing.Proofs.Listing.Order
import Licensing.Proofs.Table
import Licensing.Proofs.System.Contract
import Licensing.Proofs.System.Chronicle
import Licensing.Proofs.System.Conduct
import Licensing.Proofs.System.World
import Licensing.Proofs.License.Keeping
import Licensing.Proofs.License.Metadata
import Licensing.Proofs.License.Verdict
import Licensing.Proofs.License.Validation
import Licensing.Proofs.License.Sweep
import Licensing.Proofs.License.Stability
import Licensing.Proofs.License.Queue
import Licensing.Proofs.License.SweepCoverage
import Licensing.Proofs.License.Peers
import Licensing.Proofs.License.SweepConvergence
import Licensing.Proofs.License.Snapshots
import Licensing.Proofs.License.Expiration
import Licensing.Proofs.License.Enrichment
import Licensing.Proofs.ApiKey.Credential
import Licensing.Proofs.ApiKey.Agreement
import Licensing.Proofs.ApiKey.Grammar
import Licensing.Proofs.ApiKey.Keeping
import Licensing.Proofs.ApiKey.Lifetime
import Licensing.Proofs.License.Roll
import Licensing.Proofs.ApiKey.Register
import Licensing.Proofs.License.Lifetime
import Licensing.Proofs.Http.Serving
import Licensing.Proofs.Http.Guards
import Licensing.Proofs.Http.Rejections
import Licensing.Proofs.Json.Record
import Licensing.Proofs.Token.Accepted
import Licensing.Proofs.Text.Encodings
import Licensing.Proofs.Json.Written
import Licensing.Proofs.Token.Signed
import Licensing.Proofs.System.Conclusions
import Licensing.Proofs.System.Atomicity
import Licensing.Proofs.System.Strands
import Licensing.Proofs.System.Twins
import Licensing.Proofs.System.Detaching
import Licensing.Proofs.Http.Failing
import Licensing.Proofs.Http.Traffic
import Licensing.Proofs.Http.Whitelist
import Licensing.Proofs.Http.Faults
import Licensing.Proofs.Http.Discretion
import Licensing.Proofs.Listing.Pagination
import Licensing.Proofs.Listing.Dashboard
import Licensing.Proofs.License.Issuing
import Licensing.Proofs.License.Amendments
import Licensing.Proofs.Background.Accounts
import Licensing.Proofs.Background.Draining
import Licensing.Proofs.Background.Order
import Licensing.Proofs.Scheduling.Timetable
import Licensing.Proofs.Scheduling.Loop
import Licensing.Proofs.Scheduling.Runs
import Licensing.Proofs.License.Amending
import Licensing.Proofs.System.Counting
import Licensing.Proofs.License.SweepCounts
import Licensing.Proofs.Http.Counting
import Licensing.Proofs.Metrics.PathLabel
import Licensing.Proofs.Http.Problems
import Licensing.Proofs.Settings.Precedence
import Licensing.Proofs.Scheduling.Abandoned
