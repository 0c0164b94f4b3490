import UrlShortener.PatternDelete
import UrlShortener.PatternNesting
import UrlShortener.JsString
import UrlShortener.JsonText
import UrlShortener.JsonRoundtrip
import UrlShortener.SecurityMiddleware
import UrlShortener.AliasGenerator
import UrlShortener.JsNumber
import UrlShortener.TransitionRun
import UrlShortener.UrlRecord
import UrlShortener.UrlService
import UrlShortener.UrlServiceSafety
import UrlShortener.ShortenerRoutes
import UrlShortener.RateLimiter
import UrlShortener.ServerQuota
import UrlShortener.RateWindow
import UrlShortener.MigrationRunner
import UrlShortener.NetAddress
import UrlShortener.AnalyticsFlushWorker
import UrlShortener.FlushSteps
import UrlShortener.GracefulShutdown
import UrlShortener.ClusterManager
import UrlShortener.AnalyticsService
import UrlShortener.ClickQueue
import UrlShortener.ClickCounters
import UrlShortener.ClickConsumers
import UrlShortener.PoisonIsolation
import UrlShortener.StorableClicks
import UrlShortener.BufferedClicks
import UrlShortener.PoisonEntries
import UrlShortener.HeaderStability
import UrlShortener.VisitorFingerprint
import UrlShortener.IsoDate
import UrlShortener.CacheTransparency
import UrlShortener.CorruptCache
import UrlShortener.ForkWindow
import UrlShortener.InputStructure
import UrlShortener.RepeatedSignals
import UrlShortener.WorkerStop
import UrlShortener.AliasOrder
import UrlShortener.PatternDelimited
import UrlShortener.SeparatedList
import UrlShortener.BulkInsert
import UrlShortener.Calendar
import UrlShortener.DailyVisitors
import UrlShortener.RangeCatalog
import UrlShortener.MonthlyPartitions
import UrlShortener.SchemaAgreement
import UrlShortener.EventWindows
import UrlShortener.RateBurst
import UrlShortener.RateRecovery
import UrlShortener.ResourcePool
import UrlShortener.RedisClient
import UrlShortener.RedisPrograms
import UrlShortener.ClusterShutdown
import UrlShortener.MigrationRetry
import UrlShortener.ClickOrder
import UrlShortener.HealthProbe
import UrlShortener.ProbeTimers
import UrlShortener.ServiceJournal
import UrlShortener.RepeatedSanitizing
import UrlShortener.DatabaseClients
import UrlShortener.MigrationClients
import UrlShortener.DrainTimeout
import UrlShortener.SharedQuota
import UrlShortener.PartitionedClicks
