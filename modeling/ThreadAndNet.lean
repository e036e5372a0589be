import ThreadAndNet.Machine
import ThreadAndNet.Failure
import ThreadAndNet.Channel
import ThreadAndNet.Binary64
import ThreadAndNet.Acceptor
import ThreadAndNet.Buffer
import ThreadAndNet.BlockingQueue
import ThreadAndNet.BufferFifo
import ThreadAndNet.BufferMemory
import ThreadAndNet.BufferNarrowing
import ThreadAndNet.ClientConnections
import ThreadAndNet.ClientDestruction
import ThreadAndNet.ClientNames
import ThreadAndNet.ClientReconnect
import ThreadAndNet.ClientRuns
import ThreadAndNet.ClientSockets
import ThreadAndNet.ClientStop
import ThreadAndNet.Condition
import ThreadAndNet.ConnectionCompletion
import ThreadAndNet.ConnectionLink
import ThreadAndNet.ConnectionNotices
import ThreadAndNet.ConnectionOutput
import ThreadAndNet.ConnectionShutdown
import ThreadAndNet.ConnectorBackoff
import ThreadAndNet.ConnectorReuse
import ThreadAndNet.ConnectorSockets
import ThreadAndNet.ConnectorStates
import ThreadAndNet.EchoPollers
import ThreadAndNet.EchoRuns
import ThreadAndNet.EventLoopThread
import ThreadAndNet.LoopQuit
import ThreadAndNet.LoopRuns
import ThreadAndNet.LoopWakeup
import ThreadAndNet.OrderedSet
import ThreadAndNet.PoolStart
import ThreadAndNet.PeerErrors
import ThreadAndNet.PollerEvents
import ThreadAndNet.PollerIndex
import ThreadAndNet.PollerWatch
import ThreadAndNet.ServerHolders
import ThreadAndNet.ServerLoad
import ThreadAndNet.ServerTeardown
import ThreadAndNet.ThreadPool
import ThreadAndNet.ThreadPoolProgress
import ThreadAndNet.ThreadPoolSignals
import ThreadAndNet.ThreadPoolStop
import ThreadAndNet.ThreadPoolTasks
import ThreadAndNet.ThreadRelease
import ThreadAndNet.Timer
import ThreadAndNet.TimeQueue
import ThreadAndNet.TimerPace
import ThreadAndNet.TimerRuns
import ThreadAndNet.TimerfdRuns
import ThreadAndNet.TimestampText
import ThreadAndNet.LoopTimers
