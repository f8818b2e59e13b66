import Streamweld.Lib.Transition
import Streamweld.Lib.Sequence
import Streamweld.Lib.AssocSum
import Streamweld.Lib.Json
import Streamweld.Journal.Types
import Streamweld.Journal.Memory
import Streamweld.Journal.MemoryInvariant
import Streamweld.Journal.MemoryTail
import Streamweld.Redis.Receipts
import Streamweld.Redis.Idempotency
import Streamweld.Journal.Abstract
import Streamweld.Redis.Client
import Streamweld.Journal.MemoryRefinement
import Streamweld.Redis.Refinement
import Streamweld.Redis.Equivalence
import Streamweld.Redis.Tail
import Streamweld.Redis.TailInvariant
import Streamweld.Proxy.DegradedFeed
import Streamweld.Proxy.Runtime
import Streamweld.Proxy.Reader
import Streamweld.Proxy.System
import Streamweld.Proxy.Control
import Streamweld.Proxy.Ending
import Streamweld.Proxy.Sequencing
import Streamweld.Lib.Overlap
import Streamweld.Lib.JsonMap
import Streamweld.Lib.Lists
import Streamweld.Proxy.Chunk
import Streamweld.Proxy.Seam
import Streamweld.Proxy.PlainFrames
import Streamweld.Migrate.Seam
import Streamweld.Migrate.Eligibility
import Streamweld.Operator.ProbeCache
import Streamweld.Redis.Reservations
import Streamweld.Proxy.Resolve
import Streamweld.Proxy.Buffering
import Streamweld.Migrate.Continuation
import Streamweld.Proxy.Payloads
import Streamweld.Proxy.Producer
import Streamweld.Backends.Pool
import Streamweld.Backends.System
import Streamweld.Backends.Invariant
import Streamweld.Backends.Blocks
import Streamweld.Backends.Steps
import Streamweld.Backends.Safety
import Streamweld.Backends.Probes
import Streamweld.Proxy.RouteAgreement
import Streamweld.Proxy.RouteFence
import Streamweld.Lib.JsonGrammar
import Streamweld.Lib.Utf8
import Streamweld.Migrate.JsonPrefix
import Streamweld.Redis.Readers
import Streamweld.Migrate.JsonPrefixGrammar
import Streamweld.Client.Multicast
import Streamweld.Client.MulticastExact
import Streamweld.Lib.Utf8Stream
import Streamweld.Sse.Encoder
import Streamweld.Client.SseParser
import Streamweld.Client.SseRoundTrip
import Streamweld.Proxy.JournalSse
import Streamweld.Lib.Lines
import Streamweld.Sse.Reference
import Streamweld.Sse.RoundTrip
import Streamweld.Client.SseReading
import Streamweld.Client.SseChunks
import Streamweld.Lib.JsonFields
import Streamweld.Proxy.ChunkReading
import Streamweld.Client.ChunkText
import Streamweld.Proxy.UsageLedger
import Streamweld.Proxy.Normalize
import Streamweld.Lib.Utf8Boundary
import Streamweld.Migrate.SeamBytes
import Streamweld.Proxy.SeamFrame
import Streamweld.Lib.Keyed
import Streamweld.Migrate.ToolCall
import Streamweld.Proxy.ToolGate
