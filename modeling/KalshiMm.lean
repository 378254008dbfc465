import KalshiMm.Lib.Run
import KalshiMm.Lib.FiniteMap
import KalshiMm.Lib.Rounding
import KalshiMm.Lib.Account
import KalshiMm.Lib.Spacing
import KalshiMm.Lib.Recent
import KalshiMm.Lib.SlidingWindow
import KalshiMm.Lib.Watermark
import KalshiMm.Lib.Replica
import KalshiMm.Lib.Neighbours
import KalshiMm.Lib.Channel
import KalshiMm.Lib.Hysteresis
import KalshiMm.Model.Json
import KalshiMm.Model.Book
import KalshiMm.Model.State
import KalshiMm.Model.Spot
import KalshiMm.Model.Ladder
import KalshiMm.Model.Config
import KalshiMm.Model.Features
import KalshiMm.Model.Engine
import KalshiMm.Model.Executor
import KalshiMm.Model.Client
import KalshiMm.Model.Trader
import KalshiMm.Model.Loop
import KalshiMm.Model.Feed
import KalshiMm.Model.Desk
import KalshiMm.Model.Clearing
import KalshiMm.Model.Paper
import KalshiMm.Model.LiveTrader
import KalshiMm.Model.LiveDesk
import KalshiMm.Model.RestTrader
import KalshiMm.Model.Scoreboard
import KalshiMm.Verified.Pnl
import KalshiMm.Verified.PassiveQuotes
import KalshiMm.Verified.Handlers
import KalshiMm.Verified.OrderSlots
import KalshiMm.Verified.SpotGate
import KalshiMm.Verified.ExitSpacing
import KalshiMm.Verified.DeskSteps
import KalshiMm.Verified.Bookings
import KalshiMm.Verified.Orphans
import KalshiMm.Verified.InventoryCap
import KalshiMm.Verified.OrderBudget
import KalshiMm.Verified.SyncConfluence
import KalshiMm.Verified.FillTally
import KalshiMm.Verified.FillOrder
import KalshiMm.Verified.AccountTotals
import KalshiMm.Verified.ExactlyOnce
import KalshiMm.Verified.Categories
import KalshiMm.Verified.MarketDrops
import KalshiMm.Verified.FlatIsClean
import KalshiMm.Verified.FillWatermark
import KalshiMm.Verified.QuoteStage
import KalshiMm.Verified.Clocks
import KalshiMm.Verified.QuoteSafety
import KalshiMm.Verified.RestingCaps
import KalshiMm.Verified.TailLoss
import KalshiMm.Verified.BookPayloads
import KalshiMm.Verified.Replication
import KalshiMm.Verified.Ladders
import KalshiMm.Verified.LadderPools
import KalshiMm.Verified.GapRisk
import KalshiMm.Verified.SpotConfig
import KalshiMm.Verified.FeeGate
import KalshiMm.Verified.Replay
import KalshiMm.Verified.Backfill
import KalshiMm.Verified.ClosedMarkets
import KalshiMm.Verified.Streak
import KalshiMm.Verified.Upkeep
import KalshiMm.Verified.VanishedChecks
import KalshiMm.Verified.MissingBasis
import KalshiMm.Verified.ExitReasons
import KalshiMm.Verified.ExitPasses
import KalshiMm.Verified.FreshExits
import KalshiMm.Verified.ExitBackoff
import KalshiMm.Verified.KeepResting
import KalshiMm.Verified.Mirror
import KalshiMm.Verified.Leaning
import KalshiMm.Verified.FreeFill
import KalshiMm.Verified.RiskBudget
import KalshiMm.Verified.WellFormedFills
import KalshiMm.Verified.SaneBooks
import KalshiMm.Verified.Netting
import KalshiMm.Verified.SpotAverage
import KalshiMm.Verified.MidWindows
import KalshiMm.Verified.TradeWindow
import KalshiMm.Verified.Unwinding
import KalshiMm.Verified.SentPrices
import KalshiMm.Verified.StartupOrders
import KalshiMm.Verified.OrderFlow
import KalshiMm.Verified.WireFormat
import KalshiMm.Verified.OrderEnvelope
import KalshiMm.Verified.PaperBook
import KalshiMm.Verified.PaperTrading
import KalshiMm.Verified.Reconnects
import KalshiMm.Verified.Subscriptions
import KalshiMm.Verified.ChannelFlow
import KalshiMm.Verified.SpotMoves
import KalshiMm.Verified.GateLatch
import KalshiMm.Verified.CalmQuotes
import KalshiMm.Verified.LadderShifts
import KalshiMm.Verified.Observations
import KalshiMm.Verified.Polls
import KalshiMm.Verified.BookLag
import KalshiMm.Verified.Halts
import KalshiMm.Verified.MoneyAtRisk
import KalshiMm.Verified.Scoreboard
import KalshiMm.Verified.SelfCross
import KalshiMm.Verified.Restarts
