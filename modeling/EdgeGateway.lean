import EdgeGateway.Protocol.FrameSound
import EdgeGateway.Protocol.FrameCodec
import EdgeGateway.Basic.ShiftRegister
import EdgeGateway.Protocol.CrcCode
import EdgeGateway.Protocol.CrcBitwise
import EdgeGateway.Protocol.FrameScan
import EdgeGateway.Protocol.FrameResync
import EdgeGateway.Protocol.FrameErrors
import EdgeGateway.Protocol.FrameBounds
import EdgeGateway.Protocol.SrReceiver
import EdgeGateway.Protocol.SrClock
import EdgeGateway.Protocol.SrCall
import EdgeGateway.Protocol.SrWrap
import EdgeGateway.Protocol.SrGap
import EdgeGateway.Protocol.SrReplay
import EdgeGateway.Protocol.SrTable
import EdgeGateway.Link.TrackerCompletion
import EdgeGateway.Link.TrackerWindow
import EdgeGateway.Link.TrackerIdentity
import EdgeGateway.Link.TrackerRetry
import EdgeGateway.Link.TrackerHandshake
import EdgeGateway.Link.SerialStream
import EdgeGateway.Pipeline.TelemetryPipeline
import EdgeGateway.Io.HttpListener
import EdgeGateway.App.HttpStop
import EdgeGateway.App.HttpParams
import EdgeGateway.Cloud.CommandTranslator
import EdgeGateway.App.Bookkeeping
import EdgeGateway.App.SerialWakeup
import EdgeGateway.App.ReactorLoop
import EdgeGateway.App.Answered
import EdgeGateway.System.CommandPath
import EdgeGateway.System.Restart
import EdgeGateway.System.ResultSlots
import EdgeGateway.System.TelemetryStore
import EdgeGateway.App.Accounts
import EdgeGateway.App.Admission
import EdgeGateway.Core.ConfigReload
import EdgeGateway.Core.ConfigText
import EdgeGateway.App.RowsJson
import EdgeGateway.Core.LogConservation
import EdgeGateway.Io.DispatchSafety
import EdgeGateway.Concurrent.QueueWakeups
import EdgeGateway.Concurrent.ExecutorMonitor
import EdgeGateway.App.ManagementResources
import EdgeGateway.App.ManagementShutdown
