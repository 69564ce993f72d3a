import Trading.Async.Contract
import Trading.Data.Rounding
import Trading.DecimalContext
import Trading.FillEngine
import Trading.PositionMath
import Trading.PaperVenue
import Trading.PaperSteps
import Trading.PaperLedger
import Trading.PaperInvariants
import Trading.OrderManager
import Trading.NotificationMerge
import Trading.OrderSystem
import Trading.OrderSync
import Trading.OrderRecovery
import Trading.AccountJournal
import Trading.PositionManager
import Trading.EventBus
import Trading.Supervisor
import Trading.SupervisorTransitions
import Trading.RiskManager
import Trading.RiskTick
import Trading.SupervisorRules
import Trading.SupervisorHistory
import Trading.Executor
import Trading.ExecutorGate
import Trading.Data.Sorting
import Trading.OrderJournalReads
import Trading.AccountJournalReads
import Trading.LiveOrderbook
import Trading.LiveMarketData
import Trading.Async.Cuts
import Trading.OrderDurability
import Trading.Serde
import Trading.SerdeRoundTrip
import Trading.OrderLifecycle
import Trading.Async.Frame
import Trading.PositionCap
import Trading.EventLogChain
import Trading.AlertRouter
import Trading.Async.Phases
import Trading.Shutdown
import Trading.ShutdownRules
import Trading.ShutdownRuns
import Trading.ErrorBreakers
import Trading.DrawdownBreaker
import Trading.Async.Interference
import Trading.CancelAll
import Trading.ReconcileFailure
import Trading.PlacementReplay
import Trading.FillSource
import Trading.Async.Owners
import Trading.StaleBooks
import Trading.EventLogReads
import Trading.AlertLogReads
import Trading.OrderIdentity
import Trading.Data.FixedWidth
import Trading.Datetime
import Trading.SessionSteps
import Trading.MarketFill
import Trading.RoundedFills
import Trading.FillComparison
import Trading.EntryPrice
import Trading.Instants
import Trading.TextColumns
import Trading.PaperAlone
import Trading.PostOnly
import Trading.SubmitOutcome
import Trading.SymbolIsolation
import Trading.Async.Alone
import Trading.Async.Ledger
import Trading.OrderSystemRules
import Trading.FillAudit
import Trading.HeartbeatBreaker
import Trading.SerialRuns
import Trading.SnapshotStreams
import Trading.LiveSource
import Trading.LiveSubscribers
import Trading.PaperFeed
import Trading.KillSwitch
import Trading.PriceLimits
import Trading.IdleOrders
import Trading.Watchdog
import Trading.PositionBreakers
