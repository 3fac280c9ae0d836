import ShmIpc.AddressSpace
import ShmIpc.Announcements
import ShmIpc.AtomicQueue
import ShmIpc.ByteMemory
import ShmIpc.ByteOrder
import ShmIpc.ChangeLog
import ShmIpc.Channel
import ShmIpc.ChannelExact
import ShmIpc.ChannelFifo
import ShmIpc.ChannelLinear
import ShmIpc.ChannelPlacement
import ShmIpc.ChannelReader
import ShmIpc.ChannelRing
import ShmIpc.ChannelRoom
import ShmIpc.ChannelSession
import ShmIpc.ChannelSteps
import ShmIpc.ChannelText
import ShmIpc.ControlFd
import ShmIpc.ControlFraming
import ShmIpc.ControlKinds
import ShmIpc.Demultiplex
import ShmIpc.Descriptors
import ShmIpc.Doorbell
import ShmIpc.Evaluation
import ShmIpc.Factory
import ShmIpc.FactoryHandover
import ShmIpc.Flags
import ShmIpc.Handshake
import ShmIpc.LabelledRun
import ShmIpc.NewChannel
import ShmIpc.NewChannelAgreement
import ShmIpc.Poll
import ShmIpc.PollFailure
import ShmIpc.PollInterrupt
import ShmIpc.PollProcess
import ShmIpc.PollRefines
import ShmIpc.PollRegistry
import ShmIpc.PollTable
import ShmIpc.ProcessPoll
import ShmIpc.ProcessPollEnd
import ShmIpc.Router
import ShmIpc.RouterClose
import ShmIpc.RouterDelivers
import ShmIpc.RouterFds
import ShmIpc.RouterHistory
import ShmIpc.RouterPair
import ShmIpc.RouterRetry
import ShmIpc.RouterRuns
import ShmIpc.RouterStreams
import ShmIpc.Segments
import ShmIpc.SegmentsLeak
import ShmIpc.SegmentsShared
import ShmIpc.Shutdown
import ShmIpc.ShutdownOrder
import ShmIpc.ShutdownSafety
import ShmIpc.ShutdownTime
import ShmIpc.Simulation
import ShmIpc.SocketAddress
import ShmIpc.SocketConnect
import ShmIpc.SocketFd
import ShmIpc.SocketLeak
import ShmIpc.SocketMapped
import ShmIpc.SocketOrder
import ShmIpc.SocketTape
import ShmIpc.Wakeup
import ShmIpc.WakeupChannel
import ShmIpc.WakeupPair
import ShmIpc.WakeupTime
import ShmIpc.Walks
