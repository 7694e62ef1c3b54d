import Ticktape.Lib.Prog
import Ticktape.Lib.Pointwise
import Ticktape.Lib.Memory
import Ticktape.Lib.Alike
import Ticktape.Lib.Bytes
import Ticktape.Lib.Crc
import Ticktape.Lib.Bits
import Ticktape.Lib.Disk
import Ticktape.Lib.Fuel
import Ticktape.Lib.Quorum
import Ticktape.Lib.Stands
import Ticktape.Lib.Cursor
import Ticktape.Lib.Fifo
import Ticktape.Lib.Tree
import Ticktape.Lib.Greedy
import Ticktape.Lib.StableSort
import Ticktape.Core.Crc32c
import Ticktape.Core.Hardware
import Ticktape.Core.Codec
import Ticktape.Core.Universe
import Ticktape.Core.Canonical
import Ticktape.Core.Frame
import Ticktape.Core.Framing
import Ticktape.Core.Service
import Ticktape.Journal.Storage
import Ticktape.Journal.Segment
import Ticktape.Journal.Journal
import Ticktape.Journal.Layout
import Ticktape.Journal.Invariant
import Ticktape.Journal.Ops
import Ticktape.Journal.Recovery
import Ticktape.Journal.Run
import Ticktape.Journal.Live
import Ticktape.Journal.Kill
import Ticktape.Journal.Replay
import Ticktape.Runtime.Timer
import Ticktape.Runtime.Wheel
import Ticktape.Journal.Snapshot
import Ticktape.Runtime.Commit
import Ticktape.Runtime.Node
import Ticktape.Journal.Frames
import Ticktape.Journal.Tape
import Ticktape.Runtime.Inputs
import Ticktape.Journal.RoundTrip
import Ticktape.Journal.Writable
import Ticktape.Journal.Retry
import Ticktape.Journal.Reader
import Ticktape.Journal.Shelf
import Ticktape.Runtime.Memory
import Ticktape.Runtime.Publish
import Ticktape.Runtime.Batch
import Ticktape.Runtime.Session
import Ticktape.Runtime.Recovery
import Ticktape.Runtime.Steps
import Ticktape.Runtime.Group
import Ticktape.Runtime.Run
import Ticktape.Runtime.Clock
import Ticktape.Runtime.Replay
import Ticktape.Runtime.Audit
import Ticktape.Runtime.Failure
import Ticktape.Runtime.Release
import Ticktape.Runtime.Quorum
import Ticktape.Runtime.Burst
import Ticktape.Runtime.Ending
import Ticktape.Runtime.Progress
import Ticktape.Runtime.Restart
import Ticktape.Runtime.Chronicle
import Ticktape.Runtime.Follow
import Ticktape.Runtime.Trigger
import Ticktape.Transport.Replica
import Ticktape.Transport.Follower
import Ticktape.Transport.Reassembler
import Ticktape.Transport.Wire
import Ticktape.Transport.Delivery
import Ticktape.Transport.Range
import Ticktape.Transport.Packing
import Ticktape.Transport.Ring
import Ticktape.Transport.GapFill
import Ticktape.Transport.Feed
import Ticktape.Transport.Rewinder
import Ticktape.Transport.Retransmit
import Ticktape.Cluster.Election
import Ticktape.Cluster.Voting
import Ticktape.Cluster.Ballots
import Ticktape.Cluster.Persist
import Ticktape.Journal.Damage
import Ticktape.Journal.Rot
import Ticktape.Cluster.Winner
import Ticktape.Cluster.Net
import Ticktape.Cluster.Entries
import Ticktape.Cluster.Commit
import Ticktape.Cluster.Failover
import Ticktape.Server.Pump
import Ticktape.Server.Fence
import Ticktape.Server.Grants
import Ticktape.Server.Place
import Ticktape.Server.Bids
import Ticktape.Server.Refusal
import Ticktape.Server.Promotion
import Ticktape.Server.Fanout
import Ticktape.Server.CatchUp
import Ticktape.Gateway.Flow
import Ticktape.Gateway.Wire
import Ticktape.Gateway.Server
import Ticktape.Gateway.Admission
import Ticktape.Gateway.Streams
import Ticktape.Gateway.Attachment
import Ticktape.Gateway.Connection
import Ticktape.Gateway.Script
import Ticktape.Interop.Upgrade
import Ticktape.Gateway.Unsequenced
import Ticktape.Sim.Simulate
import Ticktape.Sim.Shrink
import Ticktape.Sim.Recovery
import Ticktape.Sim.Alarms
import Ticktape.Orderbook.Book
import Ticktape.Orderbook.Priority
import Ticktape.Orderbook.Matching
import Ticktape.Orderbook.Trading
import Ticktape.Orderbook.Session
import Ticktape.Orderbook.Codec
import Ticktape.Orderbook.Expiry
import Ticktape.Exchange.Exchange
import Ticktape.Exchange.Ownership
import Ticktape.Exchange.Sessions
import Ticktape.Exchange.Runs
import Ticktape.Exchange.Resume
