import LiteHorse.Library.Runs
import LiteHorse.Library.ReadModifyWrite
import LiteHorse.Library.RunningTotal
import LiteHorse.Library.Interleaving
import LiteHorse.Library.Channel
import LiteHorse.Library.Lease
import LiteHorse.Library.Base64
import LiteHorse.Library.JsonText
import LiteHorse.Library.Delimited
import LiteHorse.Library.Patterns
import LiteHorse.Library.ViewCache
import LiteHorse.Library.AsyncLock
import LiteHorse.Library.Versions
import LiteHorse.Library.Layers
import LiteHorse.Library.JobStore
import LiteHorse.Library.CronTrigger
import LiteHorse.Library.ForeignKeys
import LiteHorse.Models.Schema
import LiteHorse.Sessions.SdkSession
import LiteHorse.Sessions.SessionItems
import LiteHorse.Storage.Db
import LiteHorse.Storage.LocksRedis
import LiteHorse.Storage.LocksMemory
import LiteHorse.Web.CloudTurns
import LiteHorse.Web.CostBudget
import LiteHorse.Web.Idempotency
import LiteHorse.Web.TurnStream
import LiteHorse.Web.TurnAbort
import LiteHorse.Web.TurnEngine
import LiteHorse.Repositories.GdprDelete
import LiteHorse.Repositories.Official
import LiteHorse.Repositories.Effective
import LiteHorse.Repositories.UserScope
import LiteHorse.Web.EffectiveConfig
import LiteHorse.Web.UserConfig
import LiteHorse.Web.EffectiveCache
import LiteHorse.Web.EffectiveInvalidate
import LiteHorse.Repositories.MandatoryInstruction
import LiteHorse.Scheduler.Service
import LiteHorse.Scheduler.CronTick
import LiteHorse.Worker.GdprPurge
import LiteHorse.Worker.GdprExport
import LiteHorse.Worker.GdprRun
import LiteHorse.Worker.GdprCancel
import LiteHorse.Web.SessionLock
import LiteHorse.Security.Validators
import LiteHorse.Repositories.MemoryRepo
import LiteHorse.Agent.Factory
import LiteHorse.Agent.MemoryCloud
import LiteHorse.Agent.MemoryConcurrency
import LiteHorse.Worker.Compact
import LiteHorse.Library.Reindex
import LiteHorse.Providers.Chunker
import LiteHorse.Repositories.MemoryChunkRepo
import LiteHorse.Agent.RecallCloud
import LiteHorse.Worker.CompactIndex
import LiteHorse.Worker.Runner
import LiteHorse.Web.CronRoutes
import LiteHorse.Scheduler.OptOuts
import LiteHorse.Cron.LocalScheduler
import LiteHorse.Worker.AuditShip
import LiteHorse.Web.AgentMemory
import LiteHorse.Library.BlankRewrite
import LiteHorse.Memory.Store
import LiteHorse.Agent.MemoryLocal
import LiteHorse.Agent.MemoryParity
import LiteHorse.Library.Futures
import LiteHorse.Web.Permissions
import LiteHorse.Web.StreamCache
import LiteHorse.Web.TurnOwner
import LiteHorse.Web.TurnUsage
import LiteHorse.Library.JsonNumber
import LiteHorse.Agent.McpInvalidate
import LiteHorse.Web.CronRoutes
import LiteHorse.Scheduler.OptOuts
import LiteHorse.Cron.LocalScheduler
import LiteHorse.Repositories.CommandExpand
import LiteHorse.Library.JsonSpaced
import LiteHorse.Library.JsonSorted
import LiteHorse.Web.ConfigText
import LiteHorse.Web.ConfigEtag
import LiteHorse.Library.SqlTables
import LiteHorse.Models.TenantTables
import LiteHorse.Repositories.TenantWrites
import LiteHorse.Storage.RowSecurity
import LiteHorse.Scheduler.TenantScans
import LiteHorse.Worker.Curator
import LiteHorse.Library.RowVersions
import LiteHorse.Repositories.ByoKeys
import LiteHorse.Repositories.ProposalDecisions
import LiteHorse.Repositories.Agents
import LiteHorse.Repositories.AgentSnapshots
import LiteHorse.Repositories.DefaultAgent
import LiteHorse.Agent.SkillCloud
import LiteHorse.Library.PatternJoin
import LiteHorse.Agent.MemoryScreening
import LiteHorse.Memory.Calls
import LiteHorse.Memory.DistinctEntries
import LiteHorse.Memory.Capacity
import LiteHorse.Web.SessionCompact
import LiteHorse.Library.CountedRows
import LiteHorse.Sessions.LocalCounts
import LiteHorse.Repositories.SessionMessages
import LiteHorse.Sessions.LocalSummaries
import LiteHorse.Library.Utf8
import LiteHorse.Web.Sse
import LiteHorse.Storage.KmsLocal
import LiteHorse.Strings
import LiteHorse.Pathlib
import LiteHorse.Library.FileTree
import LiteHorse.Skills.LocalDispatch
import LiteHorse.Evolve.Constraints
import LiteHorse.Skills.Stats
import LiteHorse.Cli.Proposals
import LiteHorse.Library.SlidingWindow
import LiteHorse.Library.Utf8Slices
import LiteHorse.Providers.TokenChunks
import LiteHorse.Worker.CuratorRepeat
import LiteHorse.Skills.Containment
import LiteHorse.Agent.Budget
import LiteHorse.Library.Pareto
import LiteHorse.Evolve.Population
import LiteHorse.Evolve.Fitness
import LiteHorse.Evolve.Gepa
import LiteHorse.Skills.Activation
import LiteHorse.Library.SqlLike
import LiteHorse.Web.SessionKeys
import LiteHorse.Library.QuotedTerms
import LiteHorse.Sessions.Fts5Match
import LiteHorse.Library.GreedySelection
import LiteHorse.Library.TtlCache
import LiteHorse.Web.Auth
import LiteHorse.Cron.Delivery
import LiteHorse.Library.ExpiringCounters
import LiteHorse.Web.RateLimit
import LiteHorse.Library.JsonIndented
import LiteHorse.Skills.StatsFile
import LiteHorse.Skills.StatsCounts
import LiteHorse.Skills.StatsRuns
import LiteHorse.PythonJson
import LiteHorse.Cron.JobFile
import LiteHorse.Cron.StoreRuns
import LiteHorse.Repositories.SkillPromotion
import LiteHorse.Repositories.SkillPromotionRuns
import LiteHorse.Library.JsonTorn
import LiteHorse.Agent.FeedbackLog
import LiteHorse.Agent.FeedbackRuns
import LiteHorse.Agent.RecallIndex
import LiteHorse.Agent.RecallKnows
import LiteHorse.Agent.RecallInvariant
import LiteHorse.Agent.RecallRuns
import LiteHorse.Web.Provision
import LiteHorse.Agent.SkillManage
import LiteHorse.Agent.EvolutionRuns
import LiteHorse.Storage.BlobLocal
import LiteHorse.Storage.QueueMemory
