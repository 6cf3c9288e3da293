import Memstashed.Foundation.Word
import Memstashed.Foundation.Bytes
import Memstashed.Foundation.OrderedSet
import Memstashed.Foundation.Assoc
import Memstashed.Foundation.Effect
import Memstashed.Foundation.MersenneTwister
import Memstashed.Dblru.State
import Memstashed.Dblru.Operations
import Memstashed.Dblru.Sequential
import Memstashed.Dblru.Accounting
import Memstashed.Dblru.Indexes
import Memstashed.Dblru.Eviction
import Memstashed.Foundation.Prog
import Memstashed.Scmd.Commands
import Memstashed.Foundation.Search
import Memstashed.Scmd.Lines
import Memstashed.Scmd.OneLine
import Memstashed.Scmd.Exceptions
import Memstashed.Scmd.Cas
import Memstashed.Dblru.Writes
import Memstashed.Scmd.Events
import Memstashed.Scmd.Lifetime
import Memstashed.Dblru.Flush
import Memstashed.Scmd.Runs
import Memstashed.Scmd.Flushing
import Memstashed.Dblru.Tokens
import Memstashed.Scmd.Tokens
import Memstashed.Dblru.KeyView
import Memstashed.Foundation.Interleave
import Memstashed.Scmd.Atomicity
import Memstashed.Foundation.Loop
import Memstashed.Ssock.Connection
import Memstashed.Ssock.Reading
import Memstashed.Scmd.Headers
import Memstashed.Ssock.Framing
import Memstashed.Scmd.Presence
import Memstashed.Dblru.Limit
import Memstashed.Dblru.Refunds
import Memstashed.Scmd.Memory
import Memstashed.Scmd.Refusals
import Memstashed.Dblru.Shown
import Memstashed.Dblru.Recency
import Memstashed.Scmd.Recency
import Memstashed.Ssock.Storage
import Memstashed.Dblru.Sections
import Memstashed.Foundation.History
import Memstashed.Dblru.Threads
import Memstashed.Dblru.Hits
import Memstashed.Dblru.Winners
import Memstashed.Dblru.Evictable
import Memstashed.Dblru.Stamps
import Memstashed.Scmd.Clients
import Memstashed.Scmd.FlushTurns
import Memstashed.Scmd.FlushRaces
import Memstashed.Ssock.Server
import Memstashed.Ssock.Service
import Memstashed.Ssock.Wakeups
import Memstashed.Foundation.Numerals
import Memstashed.Scmd.Unterminated
import Memstashed.Scmd.Acceptance
import Memstashed.Scmd.Declared
import Memstashed.Scmd.Lookahead
import Memstashed.Scmd.Encoding
import Memstashed.Scmd.Flags
import Memstashed.Scmd.Replies
import Memstashed.Scmd.Expiry
import Memstashed.Scmd.Silence
import Memstashed.Dblru.Victims
import Memstashed.Dblru.HomeFirst
import Memstashed.Scmd.Rewriting
import Memstashed.Scmd.ShortForm
import Memstashed.Scmd.Retry
import Memstashed.Scmd.Counters
import Memstashed.Ssock.Selecting
import Memstashed.Smain.Options
import Memstashed.Foundation.Linearize
import Memstashed.Dblru.Cache
import Memstashed.Foundation.Mutex
import Memstashed.Foundation.LockOrder
import Memstashed.Dblru.Accesses
import Memstashed.Dblru.Atomic
import Memstashed.Dblru.Deadlock
import Memstashed.Ssock.Pool
import Memstashed.Foundation.Objects
import Memstashed.Scmd.Contents
import Memstashed.Scmd.Served
import Memstashed.Scmd.Answers
import Memstashed.Ssock.Sessions
import Memstashed.Ssock.Calls
import Memstashed.Scmd.Keys
import Memstashed.Ssock.Framed
import Memstashed.Ssock.Together
