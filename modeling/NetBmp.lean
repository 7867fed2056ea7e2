import NetBmp.Framing
import NetBmp.Halting
import NetBmp.PrefixTable
import NetBmp.Tokens
import NetBmp.Hex
import NetBmp.Packet
import NetBmp.PacketReader
import NetBmp.PacketWriter
import NetBmp.Frame
import NetBmp.FrameGrammar
import NetBmp.RoundTrip
import NetBmp.Session
import NetBmp.Commands
import NetBmp.SessionWriter
import NetBmp.Strings
import NetBmp.HexRoundTrip
import NetBmp.MultiPart
import NetBmp.PacketOperations
import NetBmp.Server
import NetBmp.Dispatch
import NetBmp.Serving
import NetBmp.Reachability
import NetBmp.Accessors
import NetBmp.SessionStream
import NetBmp.Answers
import NetBmp.MonitorErrors
import NetBmp.Arguments
import NetBmp.MonitorDecoding
import NetBmp.OutputPacket
import NetBmp.NoAckMode
import NetBmp.Network
import NetBmp.Serve
import NetBmp.Segmentation
import NetBmp.Abort
import NetBmp.Effects
import NetBmp.WireFormat
import NetBmp.Ownership
import NetBmp.Connections
import NetBmp.ReceiveLoop
import NetBmp.Machines
import NetBmp.SessionMachine
import NetBmp.Conformance
import NetBmp.Transports
import NetBmp.Leases
import NetBmp.Monitors
import NetBmp.TcpServer
import NetBmp.FatalPackets
import NetBmp.Lifetime
import NetBmp.Interruption
import NetBmp.Console
import NetBmp.Damage
import NetBmp.Interleaving
import NetBmp.Preemption
import NetBmp.Retransmission
