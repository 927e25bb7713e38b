import Stunks.Indexer.Cascade
import Stunks.Indexer.Chain
import Stunks.Indexer.CurveWindows

/-! The two streams in one process, over a chain that is never reorganised: launches into `tokens`,
and the trades of their curves into `trades`. -/

namespace Stunks.Indexer

open Database Pons

variable {H α β : Type}

structure TokenRow where
  token : TradedToken
  launchBlock : Nat
  deriving DecidableEq

namespace TokenRow

def address (row : TokenRow) : Address := row.token.address

def listing (row : TokenRow) : (Address × Address × Int) × Nat :=
  (row.token.listing, row.launchBlock)

end TokenRow

inductive LaunchCall : Type → Type
  | recordLaunches (fromBlock toBlock : Nat) : LaunchCall Unit
  | syncPhases (fromBlock toBlock : Nat) : LaunchCall Unit
  | deleteTokensAbove (blockNumber : Nat) : LaunchCall Unit
  | earliestLaunchBlock : LaunchCall (Option Nat)
  | now : LaunchCall Int

abbrev IndexCall (H β : Type) : Type := LaunchCall β ⊕ CurveCall H β

def LaunchCall.await (call : LaunchCall α) : Program H (IndexCall H) α :=
  Async.await (.ext (.inl call))

def Call.ofCurve : Call H (CurveCall H) β → Call H (IndexCall H) β
  | .upsertState stream startBlock => .upsertState stream startBlock
  | .findState stream => .findState stream
  | .updateState stream data => .updateState stream data
  | .upsertFailedBlock stream blockNumber error => .upsertFailedBlock stream blockNumber error
  | .resolveFailedBlocks stream throughBlock => .resolveFailedBlocks stream throughBlock
  | .head => .head
  | .getLogs query => .getLogs query
  | .blockHash blockNumber => .blockHash blockNumber
  | .ext call => .ext (.inr call)

structure IndexRows (H : Type) where
  tokens : List TokenRow
  trades : List (CurveTrade H)
  booted : Bool

namespace IndexRows

variable (s : IndexRows H)

def curve : CurveTables H := { tokens := s.tokens.map TokenRow.token, trades := s.trades }

def withCurve (t : CurveTables H) : IndexRows H :=
  { s with
    tokens := s.tokens.zipWith (fun row token => { row with token }) t.tokens
    trades := t.trades }

def recordLaunches (launches : List TokenRow) : IndexRows H :=
  { s with tokens := Table.insertMany TokenRow.address s.tokens launches }

def deleteTokensAbove (blockNumber : Nat) : IndexRows H :=
  let tokens := s.tokens.filter fun row => row.launchBlock ≤ blockNumber
  { s with
    tokens
    trades := s.trades.filter fun trade => tokens.any fun row => row.address = trade.token }

end IndexRows

structure IndexReply where
  described : Address → Bool
  failure : Failure
  now : Int
  curve : CurveReply

structure TradeConfig (H : Type) extends IndexerConfig where
  hash : Chain → H
  chain : Chain
  launches : List TokenRow
  decodePonsLog : RawLog H → Option PonsEvent
  deps : CurveProcessorDeps
  unique : (launches.map TokenRow.address).Nodup
  /-- A curve cannot emit a trade before it is deployed. -/
  deployed : ∀ raw, OnChain hash chain raw → ∀ launch ∈ launches,
    launch.token.curveAddress = raw.address → launch.launchBlock ≤ raw.blockNumber
  /-- The topics omit no event that the processor understands. -/
  filtered : ∀ raw, ((decodePonsLog raw).bind tradeArgs).isSome = true →
    LogQuery.selects { fromBlock := 0, toBlock := 0, addresses := [], topics0 := some curveTopics }
      raw = true

namespace TradeConfig

variable (cfg : TradeConfig H)

def isTrade (raw : RawLog H) : Bool := ((cfg.decodePonsLog raw).bind tradeArgs).isSome

def window (fromBlock toBlock : Nat) : List TokenRow :=
  cfg.launches.filter fun launch => fromBlock ≤ launch.launchBlock && launch.launchBlock ≤ toBlock

/-- The processor gets through only if it has recorded every launch of its window. -/
def launchExec (reply : IndexReply) (s : IndexRows H) :
    LaunchCall β → Except Failure β × IndexRows H
  | .recordLaunches fromBlock toBlock =>
    (.ok (), s.recordLaunches
      ((cfg.window fromBlock toBlock).filter fun launch => reply.described launch.address))
  | .syncPhases fromBlock toBlock =>
    if (cfg.window fromBlock toBlock).all fun launch =>
        s.tokens.any fun row => row.address = launch.address then (.ok (), s)
    else (.error reply.failure, s)
  | .deleteTokensAbove blockNumber => (.ok (), s.deleteTokensAbove blockNumber)
  | .earliestLaunchBlock => (.ok (s.tokens.map TokenRow.launchBlock).min?, s)
  | .now => (.ok reply.now, s)

def indexBackend : Backend H (IndexCall H) IndexReply (IndexRows H) where
  logs o _ query :=
    let reached := min (min o.reached query.toBlock) (cfg.chain.length - 1)
    { logs := (logsBetween cfg.hash cfg.chain (query.fromBlock - 1) reached).filter query.selects
      reachedBlock := reached }
  blockHash _ _ blockNumber :=
    if blockNumber < cfg.chain.length then some (hashAt cfg.hash cfg.chain blockNumber) else none
  ext call o s :=
    match call with
    | .inl call => cfg.launchExec o.ext s call
    | .inr call =>
      let (answer, t) := s.curve.exec o.ext.curve call
      (answer, s.withCurve t)

def processLaunches (window : Nat × Nat) : Program H (IndexCall H) Unit := do
  (LaunchCall.recordLaunches window.1 window.2).await
  (LaunchCall.syncPhases window.1 window.2).await

def processTrades (logs : List (RawLog H)) : Program H (IndexCall H) Unit := do
  let now ← LaunchCall.now.await
  let _ ← (processCurveLogs cfg.decodePonsLog { cfg.deps with now } logs).lift Call.ofCurve
  return ()

def deleteTradesAbove (blockNumber : Nat) : Program H (IndexCall H) Unit := do
  let _ ← Async.await (.ext (.inr (CurveCall.deleteTradesAbove blockNumber)))
  return ()

def scanner : Slot → ScannerOptions H (IndexCall H)
  | .factory => cfg.factoryScanner (fun _ window => processLaunches window)
    fun blockNumber => (LaunchCall.deleteTokensAbove blockNumber).await
  | .curves => cfg.curveScanner (fun logs _ => cfg.processTrades logs) deleteTradesAbove

abbrev IndexWorld (H : Type) := World H (IndexRows H)

def boot (answers : List (Answers IndexReply)) (w : IndexWorld H) : IndexWorld H :=
  let (result, w') := (cfg.startup LaunchCall.earliestLaunchBlock.await).drive
    cfg.indexBackend.exec answers w
  match result with
  | some (.ok _) => { w' with base := { w'.base with booted := true } }
  | _ => w'

abbrev IndexState (H : Type) :=
  System.Config Slot (Call H (IndexCall H)) Failure ScanTickResult (IndexWorld H)

abbrev IndexLabel := System.Label Slot (Answers IndexReply) (List (Answers IndexReply))

/-- The ticks of both streams, interleaved call by call.  Any call may fail, and after a crash the
environment restarts the indexer. -/
def indexSystem [DecidableEq H] : System Slot (Call H (IndexCall H)) Failure ScanTickResult
    (Answers IndexReply) (List (Answers IndexReply)) (IndexWorld H) where
  exec _ := cfg.indexBackend.exec
  body slot := Scanner.tick (cfg.scanner slot)
  ready _ w := w.base.booted
  start _ w := w
  finish _ _ w := w
  env answers w := if w.base.booted then w else cfg.boot answers w
  crash w := { w with base := { w.base with booted := false } }

def emptyIndex (H : Type) : IndexWorld H where
  tables := .empty
  base := { tokens := [], trades := [], booted := false }

end TradeConfig

end Stunks.Indexer
