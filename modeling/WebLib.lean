import WebLib.Framing
import WebLib.ReadSafety
import WebLib.Tracking
import WebLib.Isolation
import WebLib.Handover
import WebLib.Closing
import WebLib.HttpBinder
import WebLib.Registration
import WebLib.Binding
import WebLib.RoundTrip
import WebLib.RouteChoice
import WebLib.BodyCut
import WebLib.Filters
import WebLib.Responses
import WebLib.TaskEnd
import WebLib.Shutdown
import WebLib.Wakeups
import WebLib.Lifetime
import WebLib.HeaderLines
import WebLib.Targets
import WebLib.MatchMeaning
import WebLib.GroupNames
import WebLib.RequestCookies
import WebLib.NormalForm
import WebLib.QueryNames
import WebLib.HeaderStore
import WebLib.CookieRoundTrip
import WebLib.FieldGrammar
import WebLib.JsonBody
import WebLib.CookieSetters
import WebLib.PartialWrites
import WebLib.Methods
import WebLib.Trimming
import WebLib.BodyCounter
import WebLib.PollPass
import WebLib.QueueAccess
import WebLib.Futures
import WebLib.Quiescence
import WebLib.Linearized
import WebLib.RequestQueue
import WebLib.Delivery
import WebLib.Descriptors
import WebLib.Segments
import WebLib.Routes
import WebLib.Query
import WebLib.Lifecycle
import WebLib.Replies
import WebLib.Spinning
