import Stunks.Indexer.Phases
import Stunks.Indexer.Sources.Provider
import Stunks.Pons.Trade.Floors
import Stunks.Scripts.Retention
import Stunks.Scripts.ScoreTrending
import Stunks.Lib.Await
import Stunks.Lib.Concurrent
import Stunks.Indexer.Chain
import Stunks.Indexer.Ledger
import Stunks.Indexer.Exactness
import Stunks.Indexer.Reorgs
import Stunks.Indexer.ReorgRuns
import Stunks.Indexer.Pricing
import Stunks.Pons.Client.Reads
import Stunks.Pons.Events
import Stunks.Indexer.Launches
import Stunks.Indexer.Recorded
import Stunks.Indexer.FactoryTicks
import Stunks.Indexer.LaunchRuns
import Stunks.Indexer.Cascade
import Stunks.Indexer.CascadeRace
import Stunks.Web3.RpcPool
import Stunks.Web3.RpcAnswers
import Stunks.Web3.RpcWalk
import Stunks.Web3.RpcBatch
import Stunks.Web3.RpcSplit
import Stunks.Pons.Graduation.Progress
import Stunks.Pons.Curve.Quote
import Stunks.Indexer.Processors.Curve
import Stunks.Indexer.CurveWindows
import Stunks.Indexer.CurveRuns
import Stunks.Indexer.CurveReplay
import Stunks.Indexer.CurvePrune
import Stunks.Lib.Abi
import Stunks.Lib.Utf8
import Stunks.Pons.Launch.Metadata
import Stunks.Pons.Launch.Calldata
import Stunks.Indexer.CascadeCrash
import Stunks.Indexer.TradeStreams
import Stunks.Indexer.TradeBooks
import Stunks.Indexer.TradeWindows
import Stunks.Indexer.TradeRuns
import Stunks.Pons.Trade.Plan
import Stunks.Lib.Decimal
import Stunks.Utils.Units
import Stunks.Pons.Launch.Fields
import Stunks.Indexer.StatsRefresh
import Stunks.Indexer.TickFaults
import Stunks.Pons.Trade.Receipt
import Stunks.Pons.Launch.ImageUrl
import Stunks.Lib.Paging
import Stunks.Lib.Base64
import Stunks.Database.Explore
import Stunks.Pons.Graduation.Venue
import Stunks.Pons.Trade.Service
import Stunks.Utils.Display
import Stunks.Pons.Launch.Exemptions
import Stunks.Database.Trending
import Stunks.Indexer.HyperSyncRuns
import Stunks.Lib.Bisection
import Stunks.Web3.LogRecovery
import Stunks.Web3.LogSearch
import Stunks.Lib.Chunks
import Stunks.Lib.Workers
import Stunks.Indexer.Sources.ChunkReads
import Stunks.Indexer.StatsBatch
import Stunks.Pons.Curve.Rounding
import Stunks.Pons.Trade.Orders
import Stunks.Lib.Replacement
import Stunks.Pons.Launch.FoundText
import Stunks.Indexer.Health
import Stunks.Indexer.HealthRuns
import Stunks.Indexer.FailedBlocks
import Stunks.Scripts.BackfillMetadata
import Stunks.Scripts.RecomputePrices
import Stunks.Pons.Launch.Builder
import Stunks.Scripts.BuiltLaunches
import Stunks.Scripts.Moderate
import Stunks.Web.TokenImage
import Stunks.Indexer.BlockCache
