import Coalesce.Compress
import Coalesce.Pull
import Coalesce.Decimal.Binary64
import Coalesce.Decimal.Shortest
import Coalesce.Text.Hidden
import Coalesce.Text.Quoted
import Coalesce.Token.Display
import Coalesce.Json.Error
import Coalesce.Json.Reader
import Coalesce.Json.Number
import Coalesce.Json.Text
import Coalesce.Json.Record
import Coalesce.Compress.Json
import Coalesce.Config
import Coalesce.Pipe
import Coalesce.Proofs.Compress.Groups
import Coalesce.Proofs.Compress.Confluence
import Coalesce.Proofs.Compress.Coverage
import Coalesce.Proofs.Laziness
import Coalesce.Proofs.Segments
import Coalesce.Proofs.Pipe.Progress
import Coalesce.Proofs.Stream.Cancellation
import Coalesce.Proofs.Stream.Conservation
import Coalesce.Proofs.Stream.Opening
import Coalesce.Proofs.Stream.Backpressure
import Coalesce.Proofs.Stream.Refusal
import Coalesce.Proofs.Stream.Admission
import Coalesce.Proofs.Stream.Chronicle
import Coalesce.Proofs.Stream.Widening
import Coalesce.Proofs.Stream.Unrolling
import Coalesce.Proofs.Config.Acceptance
import Coalesce.Proofs.RoundTrip
import Coalesce.Proofs.Token.Display
