import Taskflow.HttpHandler
import Taskflow.QueryString
import Taskflow.RedisAddress
import Taskflow.Lib.Pattern
import Taskflow.BreakerProbes
import Taskflow.WorkerRing
import Taskflow.DispatchFailures
import Taskflow.ExactlyOnce
import Taskflow.LoadAccounting
import Taskflow.Snowflake
import Taskflow.RecoveryWindow
import Taskflow.EtcdCodec
import Taskflow.ServiceDiscovery
import Taskflow.WorkerLiveness
import Taskflow.LoadCache
import Taskflow.Lib.Slots
import Taskflow.RedisPool
import Taskflow.ConfigLoader
import Taskflow.TaskQueries
import Taskflow.StatusTransitions
import Taskflow.FreshAttempts
import Taskflow.RetryBackoff
import Taskflow.SnowflakeLayout
import Taskflow.ConsistentHashing
import Taskflow.Lib.StableQueue
import Taskflow.PriorityQueue
import Taskflow.BrokenConnections
import Taskflow.WorkerMain
import Taskflow.ServiceRefresh
import Taskflow.HttpServer
import Taskflow.ConcurrentLoads
import Taskflow.ConcurrentRetries
import Taskflow.ConcurrentPops
import Taskflow.DispatchOrder
import Taskflow.FairSelection
import Taskflow.WorkerTable
import Taskflow.TaskRecords
import Taskflow.UnknownTasks
import Taskflow.ReportedSuccess
import Taskflow.RetryBound
import Taskflow.ConnectionLeaks
import Taskflow.SubmittedTask
import Taskflow.AnsweredRequests
import Taskflow.ServiceEndpoints
import Taskflow.Lib.Json
import Taskflow.Lib.PlainJson
import Taskflow.ResponseBodies
import Taskflow.RedisStore
import Taskflow.Services
import Taskflow.WithoutWorkers
import Taskflow.TaskBoard
