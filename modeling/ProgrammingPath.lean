import ProgrammingPath.Lib.Framing
import ProgrammingPath.Lib.Run
import ProgrammingPath.Lib.Scan
import ProgrammingPath.Mes.Pack
import ProgrammingPath.Mes.Database
import ProgrammingPath.Mes.Order
import ProgrammingPath.Mes.Request
import ProgrammingPath.Mes.Net
import ProgrammingPath.Mes.Stream
import ProgrammingPath.Mes.Reconnect
import ProgrammingPath.Mes.ShiftTable
import ProgrammingPath.Mes.Shop
import ProgrammingPath.Mes.OrderTable
import ProgrammingPath.Mes.OrderAdjust
import ProgrammingPath.Mes.OrderSeq
import ProgrammingPath.Mes.Ledger
import ProgrammingPath.Mes.GoodCount
import ProgrammingPath.Mes.Defects
import ProgrammingPath.Mes.FileDown
import ProgrammingPath.Mes.FileIntegrity
import ProgrammingPath.Mes.Tasks
import ProgrammingPath.Mes.Upload
import ProgrammingPath.Mes.App
import ProgrammingPath.Mes.Notes
import ProgrammingPath.Mes.Dispatch
import ProgrammingPath.Mes.Corrupted
import ProgrammingPath.Lib.Heap
import ProgrammingPath.Lib.Memory
import ProgrammingPath.Multipart.Parse
import ProgrammingPath.Multipart.Encoding
import ProgrammingPath.Multipart.RoundTrip
import ProgrammingPath.Multipart.Isolation
import ProgrammingPath.Hmi.ScanConfig
import ProgrammingPath.Mes.RequestQueue
import ProgrammingPath.Queues.FaceAttribCache
import ProgrammingPath.Mqtt.Session
import ProgrammingPath.Mqtt.OutQueue
import ProgrammingPath.Mqtt.Reader
import ProgrammingPath.Mqtt.Reassembly
import ProgrammingPath.Mqtt.Replies
import ProgrammingPath.Mqtt.Server
import ProgrammingPath.Rtsp.Reader
import ProgrammingPath.Rtsp.Number
import ProgrammingPath.Rtsp.Wire
import ProgrammingPath.Rtsp.Interleaved
import ProgrammingPath.Rtsp.SpsDecode
import ProgrammingPath.Lib.EmulationPrevention
import ProgrammingPath.Rtsp.EmulationRemoval
import ProgrammingPath.Rtsp.Rtp
import ProgrammingPath.Rtsp.Recorder
import ProgrammingPath.Rtsp.Depacketise
import ProgrammingPath.Hmi.Client
import ProgrammingPath.Hmi.Echo
import ProgrammingPath.Hmi.DispatchOrder
import ProgrammingPath.Hmi.Packet
import ProgrammingPath.Gb28181.PsParse
import ProgrammingPath.Gb28181.Demux
import ProgrammingPath.Mes.Collection
import ProgrammingPath.Mes.Samples
import ProgrammingPath.Mes.PropertyXml
import ProgrammingPath.Lib.FirstMatch
import ProgrammingPath.Mes.Buttons
import ProgrammingPath.Mes.StopCard
import ProgrammingPath.Mes.StopFlag
import ProgrammingPath.Mes.FaultMemory
import ProgrammingPath.Mes.CollectCycle
import ProgrammingPath.Mes.SyncOrder
import ProgrammingPath.Lib.DataStream
import ProgrammingPath.Mqtt.HkPacket
import ProgrammingPath.Forward.Relay
import ProgrammingPath.Forward.Dispatcher
import ProgrammingPath.Lib.CString
import ProgrammingPath.Forward.Text
import ProgrammingPath.Forward.Filters
import ProgrammingPath.Forward.Message
import ProgrammingPath.Forward.Sip
import ProgrammingPath.Forward.Http
import ProgrammingPath.Lib.AnnexB
import ProgrammingPath.Rtmp.Nalu
import ProgrammingPath.Rtmp.StreamOut
import ProgrammingPath.Rtmp.Delivery
import ProgrammingPath.Rtmp.Configuration
import ProgrammingPath.Lib.FlvFile
import ProgrammingPath.Flv.Split
import ProgrammingPath.Flv.FlvOut
import ProgrammingPath.Flv.Container
import ProgrammingPath.Flv.Configuration
import ProgrammingPath.Lib.FrameClock
import ProgrammingPath.Rtmp.VideoOut
import ProgrammingPath.Flv.Timestamps
import ProgrammingPath.Flv.InBuffer
import ProgrammingPath.Lib.Links
import ProgrammingPath.Lib.Simulation
import ProgrammingPath.Lib.Replace
import ProgrammingPath.Lib.RingBuffer
import ProgrammingPath.Queues.ListQueueCir
import ProgrammingPath.Queues.AppThread
import ProgrammingPath.Queues.Lqueue
import ProgrammingPath.Queues.FrameQueue
import ProgrammingPath.Queues.TimerList
import ProgrammingPath.Service.ProtoService
import ProgrammingPath.Service.FileReceive
import ProgrammingPath.Service.ZWave
import ProgrammingPath.Lib.OnePerRead
import ProgrammingPath.Service.ResponseHead
import ProgrammingPath.Service.RtspService
import ProgrammingPath.Lib.Sends
import ProgrammingPath.Service.Proxy
import ProgrammingPath.Service.ProxyBody
import ProgrammingPath.Service.ProxyReplace
import ProgrammingPath.Lib.TableCrc
import ProgrammingPath.Mes.Frame
import ProgrammingPath.Qt.Text
import ProgrammingPath.Qt.Number
import ProgrammingPath.Qt.Dom
import ProgrammingPath.Mes.Fields
import ProgrammingPath.Mes.OrderLayout
import ProgrammingPath.Lib.Watched
import ProgrammingPath.Mes.Bounds
import ProgrammingPath.Lib.Pieces
import ProgrammingPath.Mes.Layouts
import ProgrammingPath.Mes.DefectUpload
import ProgrammingPath.Mes.OrderColumns
import ProgrammingPath.Mes.OrderDialog
import ProgrammingPath.Lib.DecoderRecord
import ProgrammingPath.Flv.ParameterSets
import ProgrammingPath.Gb28181.PsAccess
import ProgrammingPath.Gb28181.AudioLeak
import ProgrammingPath.Gb28181.RtpParse
import ProgrammingPath.Lib.RowMajor
import ProgrammingPath.Ffmpeg.PixelFormat
import ProgrammingPath.Lib.StringPointer
import ProgrammingPath.Rtsp.Url
import ProgrammingPath.Rtsp.UriDecode
import ProgrammingPath.Rtsp.Base64
import ProgrammingPath.Rtsp.SdpParse
import ProgrammingPath.Rtsp.TextBounds
import ProgrammingPath.Rtsp.Challenge
import ProgrammingPath.Rtsp.DigestAuth
import ProgrammingPath.Mes.Polynomial
import ProgrammingPath.Tools.AesPadding
import ProgrammingPath.Tools.Ipv4Check
import ProgrammingPath.Canvas.RegionTest
import ProgrammingPath.Tools.Wildcard
import ProgrammingPath.Service.CacheArray
import ProgrammingPath.Tools.MemDebug
import ProgrammingPath.Service.BindClient
import ProgrammingPath.Service.CjProtoRoundTrip
import ProgrammingPath.Service.OnvifResponse
import ProgrammingPath.Rtmp.NaluTiling
import ProgrammingPath.Service.HeadLength
import ProgrammingPath.Rtsp.ExpGolomb
