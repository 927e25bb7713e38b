import Mathlib.Data.List.MinMax
import Mathlib.Data.Prod.Lex
import Mathlib.Order.Nat
import Stunks.Indexer.Processors.Factory

/-! `processors/curve.ts` and `trade-batch.ts`: `CurveBuy` and `CurveSell` into trade rows, and the
stats of their tokens.

Queries that the code awaits together stand one after another, and a row of `tokens` is known by its
address instead of an id. -/

namespace Stunks.Indexer

open Database Pons Utils

inductive TradeVenue
  | curve
  | uniswapV4
  deriving DecidableEq

inductive TradeSide
  | buy
  | sell
  deriving DecidableEq

structure CurveTrade (H : Type) where
  transactionHash : Hex
  logIndex : Nat
  blockNumber : Nat
  blockHash : H
  token : Address
  curveAddress : Address
  venue : TradeVenue
  traderAddress : Address
  recipientAddress : Address
  side : TradeSide
  tokenAmount : Int
  quoteAmount : Int
  feeAmount : Int
  creatorTaxAmount : Int
  snipeTaxAmount : Int
  refundAmount : Int
  price : Int
  marketCap : Int
  timestamp : Nat
  excludedFromCompetition : Bool
  exclusionReason : Option String
  deriving DecidableEq

structure TokenStats where
  realQuoteReserve : Int
  graduationBps : Int
  price : Int
  marketCap : Int
  volume24h : Int
  volumeTotal : Int
  holderCount : Nat
  tradeCount : Nat
  buyCount : Nat
  sellCount : Nat
  lastTradeAt : Option Nat
  deriving DecidableEq

structure TradedToken where
  address : Address
  curveAddress : Address
  totalSupply : Int
  phase : GraduationPhase
  stats : TokenStats
  deriving DecidableEq

structure TokenTradeAggregate where
  volume : Int
  tradeCount : Nat
  buyCount : Nat
  sellCount : Nat
  deriving DecidableEq

structure LatestTradeInfo where
  price : Int
  timestamp : Nat
  deriving DecidableEq

variable {H α : Type}

def CurveTrade.key (trade : CurveTrade H) : Hex × Nat := (trade.transactionHash, trade.logIndex)

def CurveTrade.position (trade : CurveTrade H) : ℕ ×ₗ ℕ := toLex (trade.blockNumber, trade.logIndex)

def CurveTrade.isBuy (trade : CurveTrade H) : Bool := trade.side = .buy

/-- Volume is always measured on the quote leg. -/
def TokenTradeAggregate.of (trades : List (CurveTrade H)) : TokenTradeAggregate where
  volume := (trades.map CurveTrade.quoteAmount).sum
  tradeCount := trades.length
  buyCount := trades.countP CurveTrade.isBuy
  sellCount := trades.countP fun trade => !trade.isBuy

def tradesOf (token : Address) (trades : List (CurveTrade H)) : List (CurveTrade H) :=
  trades.filter fun trade => trade.token = token

def latestTrade (trades : List (CurveTrade H)) : Option (CurveTrade H) :=
  trades.argmax CurveTrade.position

structure StatsRow where
  token : Address
  stats : TokenStats

inductive CurveCall (H : Type) : Type → Type
  | warm (blockNumbers : List Nat) : CurveCall H Unit
  | blockTime (blockNumber : Nat) : CurveCall H Nat
  | findManyByCurves (curves : List Address) : CurveCall H (List TradedToken)
  | recordMany (trades : List (CurveTrade H)) : CurveCall H Nat
  | curveAddressesFor (tokens : List Address) : CurveCall H (List TradedToken)
  | aggregateForTokens (tokens : List Address) (since : Option Int) :
      CurveCall H (Address → Option TokenTradeAggregate)
  | latestForTokens (tokens : List Address) : CurveCall H (Address → Option LatestTradeInfo)
  | curveState (curve : Address) : CurveCall H CurveState
  | updateStatsMany (rows : List StatsRow) : CurveCall H Nat
  | getLaunchedToken (token : Address) : CurveCall H (LaunchedToken Nat)
  | setPhase (token : Address) (phase : GraduationPhase) : CurveCall H Unit
  | deleteTradesAbove (blockNumber : Nat) : CurveCall H Nat

abbrev CurveProgram (H : Type) := Program H (CurveCall H)

def CurveCall.await (call : CurveCall H α) : CurveProgram H α := Async.await (.ext call)

structure CurveProcessorDeps where
  minCompetitionTradeSize : Int := 0
  competitionExcludedAddresses : List Address := []
  now : Int

structure CurveProcessResult where
  trades : Nat
  duplicates : Nat
  unmatched : Nat
  tokensTouched : Nat

def competitionExclusion (traderAddress : Address) (quoteAmount minTradeSize : Int)
    (excludedAddresses : List Address) : Option String :=
  if quoteAmount < minTradeSize then some "BELOW_MIN_TRADE_SIZE"
  else if traderAddress ∈ excludedAddresses then some "ADDRESS_EXCLUDED"
  else none

/-- Of several rows with one curve the last counts. -/
def tokenByCurve (tokens : List TradedToken) (curve : Address) : Option TradedToken :=
  tokens.reverse.find? fun token => token.curveAddress = curve

structure TradeArgs where
  side : TradeSide
  quoteAmount : Int
  tokenAmount : Int
  trader : Address
  recipient : Address
  fee : Int
  tax : Int

def tradeArgs : PonsEvent → Option TradeArgs
  | .curveBuy args => some {
      side := .buy, quoteAmount := args.quoteIn, tokenAmount := args.tokensOut
      trader := args.buyer, recipient := args.recipient, fee := args.fee, tax := args.tax }
  | .curveSell args => some {
      side := .sell, quoteAmount := args.quoteOut, tokenAmount := args.tokensIn
      trader := args.seller, recipient := args.recipient, fee := args.fee, tax := args.tax }
  | _ => none

def changesPhase : PonsEvent → Bool
  | .autoGraduationFailed => true
  | .curveCompleted => true
  | _ => false

/-- The row of a trade.  The event does not separate the snipe tax from the fee. -/
def tradeRow (deps : CurveProcessorDeps) (raw : RawLog H) (token : Address) (args : TradeArgs)
    (price marketCap : Int) (timestamp : Nat) : CurveTrade H :=
  let exclusion := competitionExclusion args.trader args.quoteAmount deps.minCompetitionTradeSize
    deps.competitionExcludedAddresses
  { transactionHash := raw.transactionHash
    logIndex := raw.logIndex
    blockNumber := raw.blockNumber
    blockHash := raw.blockHash
    token
    curveAddress := raw.address
    venue := .curve
    traderAddress := args.trader
    recipientAddress := args.recipient
    side := args.side
    tokenAmount := args.tokenAmount
    quoteAmount := args.quoteAmount
    feeAmount := args.fee
    creatorTaxAmount := args.tax
    snipeTaxAmount := 0
    refundAmount := 0
    price
    marketCap
    timestamp
    excludedFromCompetition := exclusion.isSome
    exclusionReason := exclusion }

structure PendingTrades (H : Type) where
  trades : List (CurveTrade H)
  phaseSyncs : List Address
  unmatched : Nat

/-- A throw of the code itself. -/
def throwing : Except JsError α → CurveProgram H α
  | .ok a => .done (.ok a)
  | .error error => .done (.error (.error none error.message))

section process

variable (decodePonsLog : RawLog H → Option PonsEvent) (deps : CurveProcessorDeps)

def collectTrades (tokens : List TradedToken) : List (RawLog H) → CurveProgram H (PendingTrades H)
  | [] => return { trades := [], phaseSyncs := [], unmatched := 0 }
  | raw :: logs =>
    match decodePonsLog raw with
    | none => collectTrades tokens logs
    | some event =>
      if changesPhase event then do
        let pending ← collectTrades tokens logs
        match tokenByCurve tokens raw.address with
        | some token => return { pending with phaseSyncs := token.address :: pending.phaseSyncs }
        | none => return pending
      else
        match tradeArgs event with
        | none => collectTrades tokens logs
        | some args =>
          match tokenByCurve tokens raw.address with
          | none => do
            let pending ← collectTrades tokens logs
            return { pending with unmatched := pending.unmatched + 1 }
          | some token => do
            let price ← throwing (priceFromTrade args.quoteAmount args.tokenAmount)
            let marketCap ← throwing (marketCapFromPrice price token.totalSupply)
            let timestamp ← CurveCall.await (.blockTime raw.blockNumber)
            let pending ← collectTrades tokens logs
            return { pending with
              trades :=
                tradeRow deps raw token.address args price marketCap timestamp :: pending.trades }

/-- A graduated curve can stop answering some reads. -/
def readStates : List (Address × Option TradedToken) →
    CurveProgram H (List (Address × Option CurveState))
  | [] => return []
  | (id, none) :: rest => do
    let states ← readStates rest
    return (id, none) :: states
  | (id, some token) :: rest => do
    let state ← (CurveCall.await (.curveState token.curveAddress)).attempt
    let states ← readStates rest
    return (id, state.toOption) :: states

def statsOf (token : TradedToken) (aggregate dayAggregate : TokenTradeAggregate)
    (lastTrade : Option LatestTradeInfo) (state : Option CurveState) :
    Except JsError TokenStats := do
  let price := (lastTrade.map LatestTradeInfo.price).getD 0
  let marketCap ← marketCapFromPrice price token.totalSupply
  return {
    realQuoteReserve := (state.map CurveState.realQuoteReserve).getD 0
    graduationBps := (state.map fun state =>
      bigintMin (ratioBps state.realQuoteReserve state.graduationThreshold) 10000).getD 0
    price
    marketCap
    volume24h := dayAggregate.volume
    volumeTotal := aggregate.volume
    holderCount := token.stats.holderCount
    tradeCount := aggregate.tradeCount
    buyCount := aggregate.buyCount
    sellCount := aggregate.sellCount
    lastTradeAt := lastTrade.map LatestTradeInfo.timestamp }

def noTrades : TokenTradeAggregate :=
  { volume := 0, tradeCount := 0, buyCount := 0, sellCount := 0 }

def statsRows (tokens : List TradedToken) (totals daily : Address → Option TokenTradeAggregate)
    (latest : Address → Option LatestTradeInfo) :
    List (Address × Option CurveState) → Except JsError (List StatsRow)
  | [] => .ok []
  | (id, state) :: rest =>
    match tokens.find? fun token => token.address = id with
    | none => statsRows tokens totals daily latest rest
    | some token => do
      let stats ← statsOf token ((totals id).getD noTrades) ((daily id).getD noTrades) (latest id)
        state
      let rows ← statsRows tokens totals daily latest rest
      return { token := id, stats } :: rows

def day : Int := 24 * 60 * 60 * 1000

def refreshTokenStatsBatch (ids : List Address) : CurveProgram H Unit := do
  if ids.length = 0 then return ()
  else
    let tokens ← CurveCall.await (.curveAddressesFor ids)
    let totals ← CurveCall.await (.aggregateForTokens ids none)
    let daily ← CurveCall.await (.aggregateForTokens ids (some (deps.now - day)))
    let latest ← CurveCall.await (.latestForTokens ids)
    let states ← readStates (ids.map fun id => (id, tokens.find? fun token => token.address = id))
    let rows ← throwing (statsRows tokens totals daily latest states)
    let _ ← CurveCall.await (.updateStatsMany rows)
    return ()

def readPhase (token : Address) : CurveProgram H Unit := do
  let launch ← CurveCall.await (.getLaunchedToken token)
  match parseGraduationPhase launch.phase with
  | none => Async.throw (unknownPhase launch.phase)
  | some phase =>
    if launch.exists_ = false then return ()
    else CurveCall.await (.setPhase token phase)

/-- Never throws. -/
def syncPhaseFromChain (token : Address) : CurveProgram H Unit := do
  let _ ← (readPhase token).attempt
  return ()

def syncPhasesFromChain : List Address → CurveProgram H Unit
  | [] => return ()
  | token :: rest => do
    syncPhaseFromChain token
    syncPhasesFromChain rest

def recordTrades (trades : List (CurveTrade H)) : CurveProgram H Nat := do
  if trades.length > 0 then CurveCall.await (.recordMany trades) else return 0

def processCurveLogs (logs : List (RawLog H)) : CurveProgram H CurveProcessResult := do
  CurveCall.await (.warm (logs.map RawLog.blockNumber))
  let tokens ← CurveCall.await (.findManyByCurves (logs.map RawLog.address))
  let pending ← collectTrades decodePonsLog deps tokens logs
  let inserted ← recordTrades pending.trades
  let touched := (pending.trades.map CurveTrade.token).dedup
  refreshTokenStatsBatch deps touched
  syncPhasesFromChain pending.phaseSyncs
  return { trades := inserted
           duplicates := pending.trades.length - inserted
           unmatched := pending.unmatched
           tokensTouched := touched.length }

end process

end Stunks.Indexer
