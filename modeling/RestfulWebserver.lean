import RestfulWebserver.Library.Run
import RestfulWebserver.Library.Numeral
import RestfulWebserver.Http.Message
import RestfulWebserver.Http.ParseRequest
import RestfulWebserver.Session.Framing
import RestfulWebserver.Session.Routing
import RestfulWebserver.Session.Machine
import RestfulWebserver.Session.Effect
import RestfulWebserver.Session.Lifetime
import RestfulWebserver.Session.Readers
import RestfulWebserver.Session.Exceptions
import RestfulWebserver.Session.Closing
import RestfulWebserver.Session.Buffers
import RestfulWebserver.Session.Chunking
import RestfulWebserver.Session.Splicing
import RestfulWebserver.Session.Throwing
import RestfulWebserver.Http.WellFormed
import RestfulWebserver.Session.Frames
import RestfulWebserver.Session.SizeLimit
import RestfulWebserver.Entity.EntityHandler
import RestfulWebserver.Entity.Confinement
import RestfulWebserver.Entity.Concurrency
import RestfulWebserver.Entity.Serializable
import RestfulWebserver.Config.Parser
import RestfulWebserver.Config.Grammar
import RestfulWebserver.Config.RoundTrip
import RestfulWebserver.Config.Completeness
import RestfulWebserver.Startup.ParseConfig
import RestfulWebserver.Startup.Registry
import RestfulWebserver.Startup.Servable
import RestfulWebserver.Session.Agreement
import RestfulWebserver.Entity.Resolution
import RestfulWebserver.Entity.Disk
import RestfulWebserver.Entity.Store
import RestfulWebserver.Entity.Refinement
import RestfulWebserver.Entity.Fresh
import RestfulWebserver.Entity.Mock
import RestfulWebserver.Entity.Addressing
import RestfulWebserver.Library.CanonicalPath
import RestfulWebserver.Static.FileSystem
import RestfulWebserver.Static.StaticFileHandler
import RestfulWebserver.Static.Containment
import RestfulWebserver.Config.Layout
import RestfulWebserver.Startup.RouteTable
import RestfulWebserver.Startup.Port
import RestfulWebserver.Library.Selection
import RestfulWebserver.Session.LongestPrefix
import RestfulWebserver.Http.Handlers
import RestfulWebserver.Http.EchoRoundTrip
import RestfulWebserver.Session.ResponseDecoding
import RestfulWebserver.Session.Delimiting
import RestfulWebserver.Startup.Answers
import RestfulWebserver.Entity.PositiveIds
import RestfulWebserver.Library.Json
import RestfulWebserver.Entity.JsonAnswers
import RestfulWebserver.Entity.PoolHistory
import RestfulWebserver.Static.PathSafety
import RestfulWebserver.Library.Family
import RestfulWebserver.Library.Progress
import RestfulWebserver.Server.Machine
import RestfulWebserver.Server.Sessions
import RestfulWebserver.Startup.ThreadPool
import RestfulWebserver.Server.Process
import RestfulWebserver.Entity.Roots
import RestfulWebserver.Entity.RootsCompletion
import RestfulWebserver.Session.Ledger
import RestfulWebserver.Server.Exhaustion
import RestfulWebserver.Server.Main
import RestfulWebserver.Startup.Reprinting
import RestfulWebserver.Entity.Linearizable
import RestfulWebserver.Http.SleepHandler
import RestfulWebserver.Server.Responses
import RestfulWebserver.Session.World
import RestfulWebserver.Entity.Conversation
import RestfulWebserver.Static.Availability
import RestfulWebserver.Static.Downloads
import RestfulWebserver.Session.Lockstep
import RestfulWebserver.Entity.Posts
import RestfulWebserver.Entity.MockHandler
