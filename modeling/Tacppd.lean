import Tacppd.Bytes
import Tacppd.Atoi
import Tacppd.Lib.Machine
import Tacppd.Lib.Multiplex
import Tacppd.Lib.Pad
import Tacppd.Lib.Sql
import Tacppd.Lib.Tagged
import Tacppd.Protocol
import Tacppd.Crypt
import Tacppd.KeyStream
import Tacppd.Database
import Tacppd.Aaa
import Tacppd.Secret
import Tacppd.AccessRows
import Tacppd.Avp
import Tacppd.Author
import Tacppd.AuthorReview
import Tacppd.AuthorVerdict
import Tacppd.AuthorGate
import Tacppd.AuthorLeak
import Tacppd.AuthorAnswer
import Tacppd.Authen
import Tacppd.Request
import Tacppd.Reply
import Tacppd.Session
import Tacppd.SessionSeq
import Tacppd.SessionAuthen
import Tacppd.SessionOver
import Tacppd.Connection
import Tacppd.UserData
import Tacppd.UserDataLife
import Tacppd.Track
import Tacppd.TrackPort
import Tacppd.TrackTime
import Tacppd.TrackLimit
import Tacppd.Accounting
import Tacppd.AccountingIdentity
import Tacppd.Decoders
import Tacppd.DecoderBounds
import Tacppd.DecoderAgree
import Tacppd.Select
import Tacppd.SelectLogin
import Tacppd.Client
import Tacppd.ReadPacket
import Tacppd.RoundTrip
import Tacppd.RequestRoundTrip
import Tacppd.Wire
import Tacppd.ResponseRoundTrip
import Tacppd.StartRoundTrip
import Tacppd.ContRoundTrip
import Tacppd.ReplyRoundTrip
import Tacppd.Chap
import Tacppd.Lib.Lease
import Tacppd.PoolAddr
import Tacppd.Pool
import Tacppd.Resync
import Tacppd.ServerTrack
import Tacppd.Access
import Tacppd.Base64
import Tacppd.Connections
import Tacppd.DbCrypt
import Tacppd.Manager
import Tacppd.Statements
import Tacppd.Lib.Nested
import Tacppd.NetFlow
import Tacppd.Lib.ByteOrder
import Tacppd.Lib.Packed
import Tacppd.NfPacket
import Tacppd.Tiep
import Tacppd.UserPackets
import Tacppd.TrackStart
import Tacppd.PgDriver
import Tacppd.StatementRoundTrip
import Tacppd.TacDb
import Tacppd.RowKey
import Tacppd.Lib.SqlRows
import Tacppd.ModifyRows
import Tacppd.Lib.CxxString
import Tacppd.XmlDb
import Tacppd.XmlDelete
import Tacppd.XmlRoundTrip
import Tacppd.Lib.Restart
import Tacppd.AModify
import Tacppd.AModifyList
import Tacppd.SnmpPoll
import Tacppd.SnmpReconcile
import Tacppd.CheckTime
import Tacppd.ClearUsr
import Tacppd.Listeners
import Tacppd.PoolLists
import Tacppd.SetVars
import Tacppd.Lib.Cells
import Tacppd.VtyLine
import Tacppd.Lib.Loops
import Tacppd.VtyRead
import Tacppd.Lib.Rescan
import Tacppd.NetFlowSweep
import Tacppd.Command
import Tacppd.AccessConfig
import Tacppd.ConfSection
import Tacppd.DeviceConfig
import Tacppd.ConfigReplay
import Tacppd.PoolConfig
import Tacppd.Abbrev
import Tacppd.CommandWords
import Tacppd.H323
import Tacppd.PortNames
import Tacppd.Http
import Tacppd.IpScan
import Tacppd.ParamDesc
import Tacppd.LogDelivery
import Tacppd.Lib.Mutexes
import Tacppd.LogCalls
import Tacppd.LogDeadlock
import Tacppd.DeviceStatus
import Tacppd.ConfNodes
import Tacppd.ListenerConfig
import Tacppd.NodeNames
import Tacppd.ManagerConfig
import Tacppd.PeerConfig
import Tacppd.DbConfig
