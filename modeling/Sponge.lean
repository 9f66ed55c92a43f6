import Sponge.Support.Runs
import Sponge.Support.Size
import Sponge.Support.Ring
import Sponge.Support.Fragments
import Sponge.Support.BoundedQueue
import Sponge.Support.BigEndian
import Sponge.Support.OnesComplement
import Sponge.Support.Refinement
import Sponge.Support.Pieces
import Sponge.Support.Table
import Sponge.Support.Expiry
import Sponge.Support.Insertion
import Sponge.Support.Trace
import Sponge.Support.Reactor
import Sponge.Support.While
import Sponge.ByteStream.Model
import Sponge.ByteStream.Contents
import Sponge.ByteStream.Fifo
import Sponge.ByteStream.Accounting
import Sponge.StreamReassembler.Model
import Sponge.StreamReassembler.Assembly
import Sponge.StreamReassembler.Push
import Sponge.StreamReassembler.Session
import Sponge.StreamReassembler.Soundness
import Sponge.StreamReassembler.Window
import Sponge.StreamReassembler.Word64
import Sponge.StreamReassembler.Completeness
import Sponge.WrappingIntegers
import Sponge.WrappingIntegers.Nearest
import Sponge.TCPSegment
import Sponge.TCPReceiver.Model
import Sponge.TCPReceiver.Session
import Sponge.TCPReceiver.Finality
import Sponge.TCPReceiver.Window
import Sponge.TCPSender.Model
import Sponge.TCPSender.Queue
import Sponge.TCPSender.FillWindow
import Sponge.TCPSender.Outgoing
import Sponge.TCPSender.Progress
import Sponge.TCPSender.Session
import Sponge.TCPSender.Stable
import Sponge.TCPSender.Maximal
import Sponge.TCPSender.Backoff
import Sponge.TCPSender.StaleAck
import Sponge.TCPSender.Acknowledged
import Sponge.TCPSender.Retransmission
import Sponge.TCPConnection.Model
import Sponge.TCPConnection.Endpoint
import Sponge.TCPConnection.Progress
import Sponge.TCPConnection.Shutdown
import Sponge.TCPConnection.Outbox
import Sponge.TCPConnection.Reset
import Sponge.TCPConnection.Replies
import Sponge.TCPConnection.Answers
import Sponge.TCPConnection.State
import Sponge.TCPConnection.SenderSummary
import Sponge.TCPConnection.PassiveClose
import Sponge.Network.Receiving
import Sponge.Network.Link
import Sponge.Network.Model
import Sponge.Network.Safety
import Sponge.Network.Bounded
import Sponge.Network.Headers
import Sponge.Network.Arrival
import Sponge.Network.Healthy
import Sponge.Network.Batch
import Sponge.Network.Ending
import Sponge.Packet.Parser
import Sponge.Packet.Buffer
import Sponge.Packet.Faults
import Sponge.Packet.InternetChecksum
import Sponge.Packet.IPv4
import Sponge.Packet.TCP
import Sponge.Packet.Ethernet
import Sponge.Packet.Totality
import Sponge.Packet.TCPOverIP
import Sponge.Packet.PeerPinning
import Sponge.NetworkInterface.Model
import Sponge.NetworkInterface.Conservation
import Sponge.NetworkInterface.Link
import Sponge.NetworkInterface.Timing
import Sponge.NetworkInterface.Foreign
import Sponge.Router.Model
import Sponge.Router.Safety
import Sponge.Router.LongestPrefix
import Sponge.Router.Forwarding
import Sponge.EventLoop.FileDescriptor
import Sponge.FdAdapter.Model
import Sponge.EventLoop.Model
import Sponge.EventLoop.Passes
import Sponge.EventLoop.Calls
import Sponge.EventLoop.Lifecycle
import Sponge.StreamCopy.Model
import Sponge.TCPSpongeSocket.Model
import Sponge.TCPSpongeSocket.Refinement
import Sponge.TCPSpongeSocket.Failures
import Sponge.TCPSpongeSocket.Pair
import Sponge.TCPSpongeSocket.Datagrams
import Sponge.StreamCopy.Copying
import Sponge.TCPBenchmark.Model
import Sponge.TCPBenchmark.Turn
import Sponge.TCPBenchmark.Transfer
import Sponge.TCPBenchmark.Closing
