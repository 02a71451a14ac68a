import TradingEngine.SplitCapture
import TradingEngine.Entitlements
import TradingEngine.DayTradeLimit
import TradingEngine.ResolvedSubmissions
import TradingEngine.FamilySelection
import TradingEngine.StopSafety
import TradingEngine.ReconciliationVerdict
import TradingEngine.CashBooks
import TradingEngine.RerunCleanup
import TradingEngine.PaperCommit
import TradingEngine.LockboxTags
import TradingEngine.LockboxDispatch
import TradingEngine.TradeClocks
import TradingEngine.ViewNoninterference
import TradingEngine.RoundingRepair
import TradingEngine.QuoteCapture
import TradingEngine.SnapshotFreshness
import TradingEngine.FutureSplits
import TradingEngine.ScaleBreaks
import TradingEngine.ScaleRestoration
import TradingEngine.TestValidity
import TradingEngine.IncrementalPrices
import TradingEngine.CrashRecovery
import TradingEngine.PoolDiscipline
import TradingEngine.QueueWork
import TradingEngine.SplitDecisions
import TradingEngine.RetirementOrders
import TradingEngine.FillTimes
import TradingEngine.RequestMemo
import TradingEngine.LogRotation
import TradingEngine.SpyReinvestment
import TradingEngine.MarginReductions
import TradingEngine.HaltChecks
import TradingEngine.LeagueCredits
import TradingEngine.OrderBlindness
import TradingEngine.FilingCoverage
import TradingEngine.FifoMatching
import TradingEngine.OrderSequence
import TradingEngine.ActiveRisk
import TradingEngine.RiskRoundTrip
import TradingEngine.FillCapture
import TradingEngine.FactHistory
import TradingEngine.LedgerHistory
