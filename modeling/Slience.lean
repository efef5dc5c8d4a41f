import Slience.Lib.Bytes
import Slience.Lib.Framing
import Slience.Base.Buffer
import Slience.Netio.MessageHeader
import Slience.Netio.FrameReader
import Slience.Netio.StreamSocket
import Slience.Lib.Run
import Slience.Netio.BaseSocket
import Slience.Netio.SendQueue
import Slience.Netio.SyncConnector
import Slience.Netio.SyncStream
import Slience.Netio.SyncOversized
import Slience.Synccall.Server
import Slience.Synccall.Client
import Slience.Synccall.Session
import Slience.Synccall.Connection
import Slience.Synccall.Replies
import Slience.Lib.Heap
import Slience.Base.Slist
import Slience.Base.SlistFamily
import Slience.App.MsgLists
import Slience.App.Recycle
import Slience.App.Lane
import Slience.App.Application
import Slience.App.ListSafety
import Slience.App.Delivery
import Slience.App.Connections
import Slience.Lib.Delimiter
import Slience.Netio.HttpMsg
import Slience.Netio.HttpNumber
import Slience.Netio.HttpReading
import Slience.Netio.HttpScan
import Slience.Netio.HttpParse
import Slience.Netio.HttpFeed
import Slience.Netio.HttpGetters
import Slience.Netio.HttpSocket
import Slience.Netio.HttpDelivery
import Slience.Netio.HttpBounds
import Slience.Netio.HttpLength
import Slience.Netio.HttpScratch
import Slience.Netio.HttpComplete
import Slience.Netio.HttpSvrSend
import Slience.Netio.HttpResponse
import Slience.Netio.HttpDraft
import Slience.Netio.HttpRoundTrip
import Slience.Socket.Epoll
import Slience.Socket.Interest
import Slience.Socket.Accept
import Slience.Socket.CoRun
import Slience.Base.SlistModel
import Slience.Socket.Close
import Slience.Socket.CloseQueue
import Slience.Socket.DoClose
import Slience.Coroutine.Schedule
import Slience.Coroutine.Ids
import Slience.Coroutine.Resume
import Slience.Coroutine.Task
import Slience.Coroutine.TaskPlaces
import Slience.Coroutine.TaskLaunch
import Slience.Coroutine.TaskRuns
import Slience.Lib.Circular
import Slience.Base.Logger
import Slience.Base.LoggerRing
import Slience.Socket.Binding
import Slience.Socket.Refused
import Slience.Netio.Lifetime
import Slience.Netio.CallbackOrder
import Slience.Netio.SilentClose
import Slience.Base.LoggerDiscard
import Slience.Base.LoggerStop
import Slience.Synccall.CoClient
import Slience.Synccall.CoReply
import Slience.Synccall.Dealings
import Slience.Synccall.ClientRequests
import Slience.Synccall.CoRequests
import Slience.Synccall.Requests
import Slience.Redis.Address
import Slience.Lib.Bimap
import Slience.Redis.Pool
import Slience.Redis.PoolRuns
import Slience.Synccall.ShortBodies
import Slience.Synccall.Listeners
import Slience.App.Expire
import Slience.App.FrameBounds
import Slience.Synccall.CoYield
import Slience.Lib.Locking
import Slience.Socket.IoAccess
import Slience.Socket.IocpAccess
import Slience.Socket.Posts
import Slience.Socket.BlockMode
import Slience.Socket.Registry
import Slience.Socket.RegistryCounts
import Slience.Netio.HeartBeat
import Slience.Netio.HeartExpire
import Slience.Lib.Numeral
import Slience.Base.Logstream
import Slience.Base.LogRecord
import Slience.Base.Logfile
import Slience.Coroutine.TaskRestart
import Slience.Coroutine.WrapperLists
import Slience.Coroutine.RestartRuns
import Slience.Coroutine.ThrResume
import Slience.Base.CircularQueue
import Slience.Coroutine.ResumeQueue
import Slience.Redis.Format
import Slience.Redis.LiteralFormat
import Slience.Redis.Command
import Slience.Redis.Values
import Slience.Redis.Strings
import Slience.Lib.Cursor
import Slience.Redis.FormatWords
import Slience.Redis.Retry
import Slience.Lib.OnesComplement
import Slience.Socket.CheckSum
import Slience.Base.Svector
import Slience.Base.CircularDeque
import Slience.Base.SlistRun
import Slience.Base.BufferData
import Slience.Base.BufferRun
import Slience.Base.BufferCursor
import Slience.Base.BufferTyped
import Slience.Redis.PairReplies
import Slience.Redis.HashFields
import Slience.Lib.Incremental
import Slience.Redis.Reader
import Slience.Redis.ReplyParse
import Slience.Redis.ReaderRuns
import Slience.Redis.ReplyEncode
import Slience.Redis.CommandImage
import Slience.Redis.Hiredis
import Slience.Redis.Pipeline
import Slience.Redis.Blocking
import Slience.Netio.TcpStream
import Slience.Base.LogFiles
import Slience.Lib.Buckets
import Slience.Redis.Dict
import Slience.Redis.DictMap
import Slience.Redis.DictVisit
import Slience.Redis.Async
import Slience.Redis.AsyncRuns
import Slience.Redis.CommandParse
import Slience.Redis.CommandKeys
import Slience.Lib.Crc
import Slience.Redis.KeySlot
import Slience.Lib.Shards
import Slience.Redis.Cluster
import Slience.Redis.Fragment
import Slience.Redis.FragmentImage
import Slience.Redis.ClusterRuns
import Slience.Redis.ClusterServer
