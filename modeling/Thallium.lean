import Thallium.Lib.EventRun
import Thallium.Lib.LittleEndian
import Thallium.Lib.Separated
import Thallium.Common
import Thallium.Serialize.Shape
import Thallium.Serialize.Archive
import Thallium.Serialize.Operators
import Thallium.Serialize.RoundTrip
import Thallium.Network.Protocol
import Thallium.RuntimeProtocol
import Thallium.FunctionObject
import Thallium.FuncManager
import Thallium.Network.Connection
import Thallium.Network.WriteQueue
import Thallium.Network.ReceiveLoop
import Thallium.Network.Framing
import Thallium.Network.Events
import Thallium.Coordinator
import Thallium.Registration
import Thallium.Concurrent.LockQueue
import Thallium.Concurrent.LockFreeChannel
import Thallium.Logging
import Thallium.Network.WriteExclusion
import Thallium.Network.HeartbeatTimer
import Thallium.Finish
import Thallium.Format
import Thallium.Network.ConnectionManager
import Thallium.Serialize.Untrusted
import Thallium.Serialize.Overwrite
import Thallium.Network.MessageSent
import Thallium.Strings.Join
import Thallium.Strings.Split
import Thallium.HostFile
import Thallium.Init
import Thallium.FunctionTable
import Thallium.Gsl.Span
import Thallium.Network.ConnectionIds
import Thallium.Submission
import Thallium.Network.Server
import Thallium.Network.Transmission
import Thallium.Network.Link
import Thallium.Concurrent.SharedQueue
import Thallium.Network.Sessions
import Thallium.Admission
import Thallium.GlobalLogger
import Thallium.RemoteCall
import Thallium.FinishSugar
import Thallium.ReadHostFile
import Thallium.Network.HeartbeatClock
import Thallium.Network.Heartbeats
import Thallium.Network.UpperLayer
import Thallium.Network.RunServer
import Thallium.Deployment
