import MyMuduo.Buffer.Basic
import MyMuduo.Buffer.Queue
import MyMuduo.EventLoopThread.Lemmas
import MyMuduo.TcpConnection.Basic
import MyMuduo.TcpConnection.Output
import MyMuduo.TcpConnection.Stream
import MyMuduo.Data.Memory
import MyMuduo.TcpConnection.Threads
import MyMuduo.TcpConnection.Calls
import MyMuduo.TcpConnection.Storage
import MyMuduo.TcpConnection.Shutdown
import MyMuduo.Poller.Lemmas
import MyMuduo.Poller.Channels
import MyMuduo.TcpConnection.Lifecycle
import MyMuduo.TcpConnection.Confined
import MyMuduo.TcpConnection.Life
import MyMuduo.TcpConnection.Pairing
import MyMuduo.TcpConnection.Inert
import MyMuduo.TcpConnection.Race
import MyMuduo.TcpConnection.ClosedOnce
import MyMuduo.Connector.Basic
import MyMuduo.Connector.Ownership
import MyMuduo.Connector.Lifecycle
import MyMuduo.Connector.Events
import MyMuduo.Timer.Ownership
import MyMuduo.Timer.Loop
import MyMuduo.Timer.Invariant
import MyMuduo.Timer.Realtime
import MyMuduo.Timer.Schedule
import MyMuduo.Timer.Batch
import MyMuduo.Timer.Contract
import MyMuduo.Timer.Execution
import MyMuduo.Timer.Indices
import MyMuduo.Timer.Cancel
import MyMuduo.Timer.Arming
import MyMuduo.Timer.Threads
import MyMuduo.Timer.Without
import MyMuduo.EventLoop.Quit
import MyMuduo.Buffer.Words
import MyMuduo.Buffer.ReadFd
import MyMuduo.Buffer.Calls
import MyMuduo.TcpConnection.References
import MyMuduo.TcpConnection.Sigpipe
import MyMuduo.TcpServer.Basic
import MyMuduo.TcpServer.Loops
import MyMuduo.TcpServer.Stages
import MyMuduo.TcpServer.Frame
import MyMuduo.TcpServer.Wired
import MyMuduo.TcpServer.Lifecycle
import MyMuduo.TcpServer.Teardown
import MyMuduo.Timer.Forget
import MyMuduo.Timer.Spared
import MyMuduo.Connector.Handed
import MyMuduo.TcpClient.Basic
import MyMuduo.TcpClient.Stages
import MyMuduo.TcpClient.Invariant
import MyMuduo.TcpClient.Runs
import MyMuduo.TcpClient.Steps
import MyMuduo.TcpClient.Lifecycle
import MyMuduo.TcpClient.Calls
import MyMuduo.TcpClient.Threads
import MyMuduo.TcpClient.Teardown
import MyMuduo.Transition.History
import MyMuduo.Buffer.Growth
import MyMuduo.TcpConnection.Session
import MyMuduo.TcpConnection.FlowControl
import MyMuduo.TcpConnection.HalfClose
import MyMuduo.Connector.Backoff
import MyMuduo.Connector.Stopped
import MyMuduo.Poller.SwitchOff
import MyMuduo.Poller.Dispatch
import MyMuduo.Poller.Polling
import MyMuduo.Transition.Pipe
import MyMuduo.Transition.Execution
import MyMuduo.EventLoop.Served
import MyMuduo.Link.Basic
import MyMuduo.TcpConnection.Calm
import MyMuduo.Link.Stream
import MyMuduo.Link.Delivery
import MyMuduo.Link.Echo
import MyMuduo.TcpServer.Balance
import MyMuduo.TcpServer.Registry
import MyMuduo.TcpServer.Continuing
import MyMuduo.TcpServer.Progress
import MyMuduo.TcpServer.Reclaimed
import MyMuduo.EventLoopThread.Handshake
import MyMuduo.TcpServer.Start
