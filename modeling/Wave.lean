import Wave.Common.ReplayWindow
import Wave.Common.RtpVp8
import Wave.Common.RtpH264Units
import Wave.Rtp.PacketIndex
import Wave.Rtp.KeyDirection
import Wave.Rtp.Forgery
import Wave.Http.FsList
import Wave.Http.PeerSessions
import Wave.Http.RequestWriter
import Wave.Http.ProxyRelay
import Wave.Common.RouteRequest
import Wave.Http.Failover
import Wave.Http.ListenerSockets
import Wave.Http.Admission
import Wave.Http.Fanout
import Wave.Http.AppExchange
import Wave.Sip.OwnCall
import Wave.Smtp.CommandLines
import Wave.Http.CacheReaders
import Wave.Http.H2Windows
import Wave.Http.H2Streams
import Wave.Http.H2Split
import Wave.Http.H2ClientForward
import Wave.Http.HpackItems
import Wave.Http.SessionSwap
import Wave.Http.AppAborts
import Wave.Http.ClientCheck
import Wave.Http.WsWire
import Wave.Common.WsSessionExport
import Wave.Common.SrtpEstimate
import Wave.Common.S3Parts
import Wave.Common.SrtpCounter
import Wave.Http.FsListing
import Wave.Http.HpackInteger
import Wave.Http.QpackReaders
import Wave.Http.RequestCuts
import Wave.Http.RouteMap
import Wave.Common.JitterOutage
import Wave.Http.H2ClientLimit
import Wave.Http.CreditRetry
import Wave.Common.RouteIpv6
import Wave.Common.RtcpWire
import Wave.Common.StunBehind
import Wave.Common.Utf8Core
import Wave.Http.ChunkLine
import Wave.Common.RouteDots
import Wave.Common.AmzDate
import Wave.Common.RtcpFraction
import Wave.Common.SframeCore
import Wave.Http.RangeHeader
import Wave.Common.HeaderField
import Wave.Common.RtpLayout
import Wave.Stun.Client
