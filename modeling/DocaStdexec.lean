import DocaStdexec.Lib.Machine
import DocaStdexec.Lib.Potential
import DocaStdexec.Lib.Fifo
import DocaStdexec.Lib.LinkChain
import DocaStdexec.Lib.Forest
import DocaStdexec.Lib.Unfolding
import DocaStdexec.Lib.Trace
import DocaStdexec.Lib.ByteOrder
import DocaStdexec.Lib.Store
import DocaStdexec.Lib.Ledger
import DocaStdexec.Lib.Sharing
import DocaStdexec.Lib.Resumption
import DocaStdexec.Lib.Play
import DocaStdexec.Lib.Socket
import DocaStdexec.Lib.Connection
import DocaStdexec.Lib.Upload
import DocaStdexec.Lib.Download
import DocaStdexec.Lib.Steady
import DocaStdexec.Lib.Duplex
import DocaStdexec.Lib.Session
import DocaStdexec.Lib.Handshake
import DocaStdexec.Lib.Sequel
import DocaStdexec.Lib.Reading
import DocaStdexec.Lib.Mutex
import DocaStdexec.Common.CheckError
import DocaStdexec.Common.FailStop
import DocaStdexec.Common.Device
import DocaStdexec.Common.TcpSocket
import DocaStdexec.Common.Framing
import DocaStdexec.Common.PartialTransfer
import DocaStdexec.Common.MessageStream
import DocaStdexec.Common.Decoding
import DocaStdexec.Common.LengthPrefix
import DocaStdexec.Common.AcceptedFrames
import DocaStdexec.Common.Rejection
import DocaStdexec.Common.HalfFrame
import DocaStdexec.Common.TcpServer
import DocaStdexec.Common.Descriptors
import DocaStdexec.Common.Listeners
import DocaStdexec.Common.Liveness
import DocaStdexec.Common.Conversation
import DocaStdexec.Common.TornStream
import DocaStdexec.ProgressEngine.RunLoop
import DocaStdexec.ProgressEngine.Shutdown
import DocaStdexec.Buf.Inventory
import DocaStdexec.Buf.Ownership
import DocaStdexec.Buf.ListTraversal
import DocaStdexec.Buf.Lifecycle
import DocaStdexec.Buf.FreeCallback
import DocaStdexec.Rdma.ConnectionSender
import DocaStdexec.Rdma.Task
import DocaStdexec.Rdma.Completion
import DocaStdexec.Rdma.Handles
import DocaStdexec.Rdma.DescriptorExchange
import DocaStdexec.Rdma.SenderBuffers
import DocaStdexec.Rdma.Loopback
import DocaStdexec.ProgressEngine.Reentrancy
import DocaStdexec.ProgressEngine.EventLoop
import DocaStdexec.ProgressEngine.Joining
import DocaStdexec.ProgressEngine.Locking
import DocaStdexec.ProgressEngine.Accesses
import DocaStdexec.ProgressEngine.Teardown
import DocaStdexec.ProgressEngine.Polling
