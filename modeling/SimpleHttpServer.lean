import SimpleHttpServer.Http.BodyFraming
import SimpleHttpServer.Http.MethodAssertion
import SimpleHttpServer.Http.Termination
import SimpleHttpServer.Http.HalfClosed
import SimpleHttpServer.Http.HeaderCase
import SimpleHttpServer.Http.ServedResponses
import SimpleHttpServer.Http.WellFormed
import SimpleHttpServer.Net.AppendSizes
import SimpleHttpServer.Net.BufferCapacity
import SimpleHttpServer.Net.EventLoopThread
import SimpleHttpServer.Net.BackPressure
import SimpleHttpServer.Net.SendStorage
import SimpleHttpServer.Net.ConnectionReports
import SimpleHttpServer.Net.ServerConnections
import SimpleHttpServer.Net.PollInterest
import SimpleHttpServer.Net.TimerArming
import SimpleHttpServer.Net.TimerDelay
import SimpleHttpServer.Sql.PoolClients
import SimpleHttpServer.Sql.Registration
import SimpleHttpServer.App.Injection
import SimpleHttpServer.App.FormGrammar
import SimpleHttpServer.App.Accounts
import SimpleHttpServer.App.Responses
import SimpleHttpServer.App.Site
import SimpleHttpServer.App.Workers
import SimpleHttpServer.Net.EventLoopThreadPool
