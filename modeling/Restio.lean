import Restio.Lib.FiniteMap
import Restio.Lib.Checked
import Restio.Lib.LongestMatch
import Restio.Lib.PrefixTrie
import Restio.Lib.Text
import Restio.Source.Http
import Restio.Source.HandlerStore
import Restio.Source.HandlerStoreTrie
import Restio.Source.StoreHistory
import Restio.Guarantees.RouteRefinement
import Restio.Guarantees.BasePath
import Restio.Guarantees.RouteRemoval
import Restio.Guarantees.RootRoute
import Restio.Lib.OrderedForest
import Restio.Lib.ForestValues
import Restio.Lib.Decimal
import Restio.Lib.EntityCode
import Restio.Source.ApiMapper
import Restio.Spec.UriTemplate
import Restio.Source.ApiBinding
import Restio.Source.ApiTree
import Restio.Source.UriParser
import Restio.Guarantees.ApiLookup
import Restio.Guarantees.ApiBindings
import Restio.Source.RestHandler
import Restio.Source.VersionRoutes
import Restio.Guarantees.VersionIsolation
import Restio.Guarantees.QueryRouting
import Restio.Source.HttpServer
import Restio.Guarantees.KeepAlive
import Restio.Source.Interleaving
import Restio.Guarantees.Statistics
import Restio.Guarantees.CanonicalTrie
import Restio.Guarantees.RouteReachability
import Restio.Guarantees.TailContract
import Restio.Guarantees.OkResponse
import Restio.Guarantees.FailingHandler
import Restio.Guarantees.MethodStorage
import Restio.Guarantees.TemplateGrammar
import Restio.Guarantees.Instantiation
import Restio.Guarantees.IntrospectionPage
import Restio.Guarantees.HtmlEscape
import Restio.Guarantees.TemplatePrecedence
import Restio.Guarantees.ParsedTree
import Restio.Lib.Coroutine
import Restio.Lib.EventMachine
import Restio.Source.Connections
import Restio.Guarantees.SessionIsolation
import Restio.Guarantees.Exchanges
import Restio.Guarantees.OwnResponses
import Restio.Guarantees.CountedRequests
import Restio.Guarantees.Linearization
import Restio.Guarantees.Progress
import Restio.Guarantees.Listening
import Restio.Source.MixedServer
import Restio.Guarantees.Composition
import Restio.Source.AsyncRest
import Restio.Source.HandlerMap
import Restio.Guarantees.RestIsolation
import Restio.Guarantees.ApiExceptions
import Restio.Source.Demo
import Restio.Spec.Resources
import Restio.Guarantees.DemoService
import Restio.Guarantees.ResourceNames
