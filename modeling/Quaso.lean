import Quaso.Lib.Float32
import Quaso.Lib.TransitionSystem
import Quaso.Lib.Majority
import Quaso.Lib.TermLog
import Quaso.Lib.WaitGraph
import Quaso.Lib.Words
import Quaso.Lib.Registers
import Quaso.Raft.State
import Quaso.Raft.Rpc
import Quaso.Raft.Operations
import Quaso.Raft.Node
import Quaso.Raft.Wire
import Quaso.Raft.Transitions
import Quaso.Raft.Disk
import Quaso.Raft.Cluster
import Quaso.Handlers.Outcome
import Quaso.Handlers.Vote
import Quaso.Handlers.Append
import Quaso.Handlers.Retransmission
import Quaso.Safety.Conditions
import Quaso.Safety.Term
import Quaso.Safety.Flag
import Quaso.Safety.Faults
import Quaso.Safety.Promises
import Quaso.Safety.Durability
import Quaso.Safety.CrashPoint
import Quaso.Safety.Vote
import Quaso.Safety.Prefix
import Quaso.Safety.Phases
import Quaso.Safety.Network
import Quaso.Safety.Election
import Quaso.Safety.LogMatching
import Quaso.Safety.Ballots
import Quaso.Safety.Replication
import Quaso.Safety.Agreement
import Quaso.Safety.Completeness
import Quaso.Safety.Deadlock
import Quaso.Safety.CatchUp
import Quaso.Leader.Commit
import Quaso.Leader.Tenure
import Quaso.Leader.Rounds
import Quaso.Leader.Verdict
import Quaso.Safety.Delivery
import Quaso.Kv.Command
import Quaso.Kv.Parsing
import Quaso.Kv.Store
import Quaso.Kv.Acknowledged
import Quaso.Kv.Session
import Quaso.Kv.Framing
import Quaso.Kv.Replay
import Quaso.Kv.Cluster
import Quaso.Safety.Validity
import Quaso.Safety.Returns
import Quaso.Lib.Replication
import Quaso.Safety.Order
import Quaso.Kv.Integrity
import Quaso.Kv.Replicas
import Quaso.Lib.Timer
import Quaso.Safety.Timing
import Quaso.Raft.Loop
import Quaso.Safety.Turns
import Quaso.Leader.Exchange
import Quaso.Leader.Progress
import Quaso.Kv.Alone
import Quaso.Lib.Codec
import Quaso.Raft.Stream
import Quaso.Raft.Bincode
import Quaso.Safety.Answers
import Quaso.Safety.Carried
import Quaso.Safety.Stream
import Quaso.Kv.Wires
import Quaso.Safety.Restart
import Quaso.Kv.ConfigFile
import Quaso.Raft.Fleet
import Quaso.Raft.Past
import Quaso.Safety.Rejoin
import Quaso.Safety.Fleet
import Quaso.Safety.Provenance
import Quaso.Safety.Replay
