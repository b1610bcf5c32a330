import Jmuduo.BufferDeque
import Jmuduo.PollSet
import Jmuduo.HalfClose
import Jmuduo.ConnectionCallbacks
import Jmuduo.TimerRuns
import Jmuduo.ServerRuns
import Jmuduo.ServerNames
import Jmuduo.BoundedBlockingQueue
import Jmuduo.LoopRequests
import Jmuduo.WriteComplete
import Jmuduo.SharedSends
import Jmuduo.SharedShutdown
import Jmuduo.LoopDestructor
import Jmuduo.QueueWakeups
import Jmuduo.CountDownLatch
import Jmuduo.WriteFailures
import Jmuduo.BufferSizes
import Jmuduo.BufferIntegers
import Jmuduo.CheapPrepend
import Jmuduo.HighWater
import Jmuduo.PoolTasks
import Jmuduo.PoolDeadlock
import Jmuduo.BufferBacklog
import Jmuduo.BufferStander
import Jmuduo.ChannelRemoval
import Jmuduo.LoopDispatch
import Jmuduo.TimerDelay
import Jmuduo.TimerReads
import Jmuduo.Acceptor
import Jmuduo.ServerCallbacks
import Jmuduo.Calendar
import Jmuduo.Numerals
import Jmuduo.Timestamp
import Jmuduo.ServerReferences
import Jmuduo.EventLoopThread
import Jmuduo.ServerLoops
import Jmuduo.ThreadDestructor
import Jmuduo.TimerRequests
import Jmuduo.RawFunctors
import Jmuduo.ServerDestructor
import Jmuduo.InputStream
import Jmuduo.TimerSpacing
import Jmuduo.Dotted
import Jmuduo.InetAddress
import Jmuduo.Mailbox
import Jmuduo.SharedSenders
import Jmuduo.PolledConnections
import Jmuduo.ShutdownDrain
