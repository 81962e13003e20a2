import Minnow.AdapterCarriers
import Minnow.BigEndian
import Minnow.ByteStream
import Minnow.ByteStreamClosed
import Minnow.ByteStreamFronts
import Minnow.ByteStreamRuns
import Minnow.Channel
import Minnow.Computer
import Minnow.ComputerRuns
import Minnow.Connection
import Minnow.ConnectionAcks
import Minnow.ConnectionRecovery
import Minnow.ConnectionSent
import Minnow.ConnectionWindow
import Minnow.DatagramAdapter
import Minnow.Ethernet
import Minnow.EthernetCarriers
import Minnow.EthernetWire
import Minnow.EventLoop
import Minnow.EventLoopCalls
import Minnow.EventLoopInvariants
import Minnow.EventLoopRuns
import Minnow.FileDescriptor
import Minnow.FileDescriptorWrite
import Minnow.Histories
import Minnow.IPv4
import Minnow.IPv4Accepted
import Minnow.IPv4PayloadLength
import Minnow.IPv4Wire
import Minnow.Internet
import Minnow.InternetChecksum
import Minnow.InternetChecksumLaws
import Minnow.InternetRuns
import Minnow.InternetStations
import Minnow.MinnowSocket
import Minnow.MinnowSocketPairs
import Minnow.MinnowSocketRules
import Minnow.MinnowSocketRuns
import Minnow.MinnowSocketTurns
import Minnow.NetworkInterface
import Minnow.NetworkInterfaceCache
import Minnow.NetworkInterfaceDestination
import Minnow.NetworkInterfaceLearned
import Minnow.NetworkInterfaceQueue
import Minnow.NetworkInterfaceRequests
import Minnow.NetworkInterfaceRuns
import Minnow.NetworkInterfaceSends
import Minnow.OnesComplement
import Minnow.Parser
import Minnow.ParserCursor
import Minnow.ParserSplits
import Minnow.ParserViews
import Minnow.ParserWire
import Minnow.Reassembler
import Minnow.ReassemblerInsert
import Minnow.ReassemblerInvariant
import Minnow.ReassemblerRuns
import Minnow.ReassemblerTrim
import Minnow.Router
import Minnow.RouterDrain
import Minnow.RouterForwarding
import Minnow.RouterMatch
import Minnow.SocketPair
import Minnow.Spans
import Minnow.StreamCopy
import Minnow.StreamCopyRuns
import Minnow.StreamCopyTurns
import Minnow.TCPConversation
import Minnow.TCPConversationAnswers
import Minnow.TCPConversationStreams
import Minnow.TCPMessages
import Minnow.TCPOverIPv4
import Minnow.TCPOverIPv4Runs
import Minnow.TCPOverIPv4Wire
import Minnow.TCPPeer
import Minnow.TCPPeerRuns
import Minnow.TCPPeerSides
import Minnow.TCPPeerTraffic
import Minnow.TCPReceiver
import Minnow.TCPReceiverRuns
import Minnow.TCPSegment
import Minnow.TCPSegmentAccepted
import Minnow.TCPSegmentWire
import Minnow.TCPSender
import Minnow.TCPSenderBackoff
import Minnow.TCPSenderOutstanding
import Minnow.TCPSenderPush
import Minnow.TCPSenderRuns
import Minnow.TCPSenderSent
import Minnow.TCPSenderTimer
import Minnow.TCPSenderWindow
import Minnow.Throwing
import Minnow.Transition
import Minnow.Views
import Minnow.WrappingIntegers
