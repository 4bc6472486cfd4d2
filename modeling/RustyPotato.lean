import RustyPotato.Lib.Decimal
import RustyPotato.Lib.Stream
import RustyPotato.Text
import RustyPotato.Time
import RustyPotato.Value
import RustyPotato.Store
import RustyPotato.Keyspace
import RustyPotato.Timeline
import RustyPotato.Commands.Basic
import RustyPotato.Commands.Strings
import RustyPotato.Commands.Expiry
import RustyPotato.Commands.Hashes
import RustyPotato.Commands.Loops
import RustyPotato.Commands.Server
import RustyPotato.Registry
import RustyPotato.ErrorReply
import RustyPotato.Retime
import RustyPotato.Untimed
import RustyPotato.Panic
import RustyPotato.Codec
import RustyPotato.Encoding
import RustyPotato.Frame
import RustyPotato.Session
import RustyPotato.Decoding
import RustyPotato.Pipelining
import RustyPotato.Replay
import RustyPotato.Recovery
import RustyPotato.Reachable
import RustyPotato.Representation
import RustyPotato.Snapshot
import RustyPotato.Writer
import RustyPotato.WriterFaults
import RustyPotato.TornTail
import RustyPotato.Restart
import RustyPotato.Lib.Machine
import RustyPotato.Lib.Threads
import RustyPotato.Lib.Locks
import RustyPotato.Lib.Wildcard
import RustyPotato.Concurrent
import RustyPotato.LazyExpiry
import RustyPotato.System
import RustyPotato.Acknowledge
import RustyPotato.LogValues
import RustyPotato.Barrier
import RustyPotato.LogOrder
import RustyPotato.Interleaving
import RustyPotato.LineEnds
import RustyPotato.Replies
import RustyPotato.ReplyRules
import RustyPotato.CommandReplies
import RustyPotato.ReplySync
import RustyPotato.Config
import RustyPotato.WireSize
import RustyPotato.Accepted
import RustyPotato.RewriteFrames
import RustyPotato.RewriteDeadlines
import RustyPotato.LogReplay
import RustyPotato.Limits
import RustyPotato.Nesting
import RustyPotato.WriterTask
import RustyPotato.TwoRuns
import RustyPotato.ExpiredAsMissing
import RustyPotato.KeyIsolation
import RustyPotato.IntegerText
import RustyPotato.Glob
import RustyPotato.Answers
import RustyPotato.Variadic
import RustyPotato.ExpiryTests
import RustyPotato.SetGrammar
import RustyPotato.SetSemantics
import RustyPotato.ExtremeDeadlines
import RustyPotato.Lib.Race
import RustyPotato.CounterRace
import RustyPotato.Counters
import RustyPotato.HashRace
import RustyPotato.KeepTtl
import RustyPotato.TwoMaps
import RustyPotato.IndexRace
import RustyPotato.Connections
import RustyPotato.ReadOnly
import RustyPotato.SetThenExpire
import RustyPotato.TypeDiscipline
import RustyPotato.ByteExact
import RustyPotato.Metadata
import RustyPotato.ReplayLoop
import RustyPotato.Health
import RustyPotato.Histograms
import RustyPotato.LogRetention
import RustyPotato.CleanRestarts
import RustyPotato.Crash
import RustyPotato.Progress
import RustyPotato.Shutdown
import RustyPotato.StoreRace
import RustyPotato.Repl
import RustyPotato.SocketFaults
import RustyPotato.Gauges
import RustyPotato.Leases
import RustyPotato.Generations
