import Kitserv.Basis.Script
import Kitserv.Basis.Monitor
import Kitserv.Basis.LinkedList
import Kitserv.Slots
import Kitserv.Registration
import Kitserv.Admission
import Kitserv.BodyLaw
import Kitserv.HeaderLaw
import Kitserv.FormattedAppend
import Kitserv.UrlEncoding
import Kitserv.PathTraversal
import Kitserv.PrepareLaw
import Kitserv.SendStage
import Kitserv.StaticLaw
import Kitserv.StaticSelection
import Kitserv.RangeHeader
import Kitserv.RangeServing
import Kitserv.RequestText
import Kitserv.LengthHeader
import Kitserv.RequestRoundTrip
import Kitserv.QueryTransport
import Kitserv.CookieScan
import Kitserv.Cookies
import Kitserv.PayloadRead
import Kitserv.ContentLength
import Kitserv.StageSteps
import Kitserv.SocketErrors
import Kitserv.FileStage
import Kitserv.SendfileEmulation
import Kitserv.HandlerProtocol
import Kitserv.HandlerHeaders
import Kitserv.ResponseHead
import Kitserv.CannedError
import Kitserv.HeadAgreement
import Kitserv.Routing
import Kitserv.TreeRouting
import Kitserv.ApiFrame
import Kitserv.Connection
import Kitserv.Framing
import Kitserv.Rejection
import Kitserv.Termination
import Kitserv.RouteFlags
import Kitserv.AllowHeader
import Kitserv.HeadPath
import Kitserv.LoggedPath
import Kitserv.CursorLog
import Kitserv.CursorSafety
import Kitserv.Descriptors
import Kitserv.DescriptorStages
import Kitserv.Pipelining
import Kitserv.Hangup
import Kitserv.BodyRoom
import Kitserv.SlotReuse
import Kitserv.Twins
import Kitserv.StaticResponse
import Kitserv.Independence
import Kitserv.Wire
import Kitserv.StaticView
import Kitserv.Session
import Kitserv.System
import Kitserv.Site
import Kitserv.Unstuck
import Kitserv.Startup
