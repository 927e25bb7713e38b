import Stunks.Database.Tables
import Stunks.Web3.RpcPool

/-! `health.ts`: what the indexer reports of itself. -/

namespace Stunks.Indexer

open Database Web3

structure ReportedColumns where
  lastSuccessAt : Option String
  logWindowSize : Nat

structure HealthDeps where
  chainId : Nat
  chainHead : Option Nat
  startBlock : Nat
  columns : IndexerStream → ReportedColumns
  /-- `Math.round(Number(lagBlocks) * BLOCK_TIME_SECONDS)` -/
  lagSeconds : Int → Int
  pool : List MutableHealth
  now : ℚ
  checkedAt : String

structure StreamReport where
  stream : IndexerStream
  indexedBlock : String
  lagBlocks : Option String
  lagSeconds : Option Int
  lastSuccessAt : Option String
  lastError : Option String
  isPaused : Bool
  logWindowSize : Nat
  /-- Blocks between the configured start block and this checkpoint that the index does not
  cover. -/
  unscannedBelow : Option String
  deriving DecidableEq

structure EndpointReport where
  url : String
  healthy : Bool
  avgLatencyMs : Option Int
  totalFailures : Nat
  lastErrorKind : Option RpcFailureKind

inductive HealthStatus
  | ok
  | degraded
  deriving DecidableEq

structure HealthSnapshot where
  status : HealthStatus
  chainId : Nat
  chainHead : Option String
  streams : List StreamReport
  unresolvedFailedBlocks : Nat
  hasUnscannedHistory : Bool
  rpc : List EndpointReport
  checkedAt : String

variable {H : Type}

/-- `checkpoints.health`: the rows of the chain, and how many of its failed blocks are unresolved.
The query asks for no order of the rows. -/
def checkpointHealth (tables : Tables H) : List (IndexerStream × IndexerState H) × Nat :=
  ([.factory, .curves, .v4PoolManager, .transfers].filterMap fun stream =>
      (tables.states stream).map (stream, ·),
    tables.failedBlocks.countP fun block => block.resolved = false)

namespace HealthDeps

variable (deps : HealthDeps)

def streamReport (row : IndexerStream × IndexerState H) : StreamReport :=
  let (stream, state) := row
  let lagBlocks := deps.chainHead.map fun head => (head : Int) - state.lastProcessedBlock
  -- A gap below the checkpoint, which is a different thing from being behind the head.
  let unscannedBelow :=
    if state.lastProcessedBlock > deps.startBlock then
      some (state.lastProcessedBlock - deps.startBlock)
    else none
  { stream
    indexedBlock := toString state.lastProcessedBlock
    lagBlocks := lagBlocks.map toString
    lagSeconds := lagBlocks.map deps.lagSeconds
    lastSuccessAt := (deps.columns stream).lastSuccessAt
    lastError := state.lastError
    isPaused := state.isPaused
    logWindowSize := (deps.columns stream).logWindowSize
    unscannedBelow := unscannedBelow.map toString }

def endpointReport (endpoint : MutableHealth) : EndpointReport where
  url := endpoint.url
  healthy := endpoint.cooldownUntil.all fun cooldownUntil => cooldownUntil ≤ deps.now
  avgLatencyMs := endpoint.avgLatencyMs.map fun ms => (ms + 1 / 2).floor
  totalFailures := endpoint.totalFailures
  lastErrorKind := endpoint.lastErrorKind

def buildHealthSnapshot (tables : Tables H) : HealthSnapshot :=
  let (streams, unresolvedFailedBlocks) := checkpointHealth tables
  let streamReports := streams.map deps.streamReport
  -- The curve stream is fast-forwarded on purpose.
  let hasUnscannedHistory := streamReports.any fun report =>
    report.stream = .factory && report.unscannedBelow.isSome
  let degraded := deps.chainHead.isNone || unresolvedFailedBlocks > 0 || hasUnscannedHistory ||
    streamReports.any fun report => report.isPaused || report.lastError.isSome
  { status := if degraded then .degraded else .ok
    chainId := deps.chainId
    chainHead := deps.chainHead.map toString
    streams := streamReports
    unresolvedFailedBlocks
    hasUnscannedHistory
    rpc := deps.pool.map deps.endpointReport
    checkedAt := deps.checkedAt }

def statusCode (snapshot : HealthSnapshot) : Nat := if snapshot.status = .ok then 200 else 503

variable {deps} {tables : Tables H}

theorem hasUnscannedHistory_iff :
    (deps.buildHealthSnapshot tables).hasUnscannedHistory = true ↔
      ∃ state, tables.states .factory = some state ∧
        deps.startBlock < state.lastProcessedBlock := by
  simp only [buildHealthSnapshot, checkpointHealth, List.any_eq_true, List.mem_map,
    List.mem_filterMap, Option.map_eq_some_iff, Bool.and_eq_true, decide_eq_true_eq]
  constructor
  · rintro ⟨_, ⟨_, ⟨stream, -, state, hstate, rfl⟩, rfl⟩, hstream, hgap⟩
    obtain rfl : stream = .factory := hstream
    refine ⟨state, hstate, ?_⟩
    by_contra hle
    simp [streamReport, hle] at hgap
  · rintro ⟨state, hstate, hlt⟩
    refine ⟨_, ⟨_, ⟨.factory, by simp, state, hstate, rfl⟩, rfl⟩, rfl, ?_⟩
    simp [streamReport, hlt]

theorem statusCode_of_unscanned (h : (deps.buildHealthSnapshot tables).hasUnscannedHistory = true) :
    statusCode (deps.buildHealthSnapshot tables) = 503 := by
  have hdegraded : (deps.buildHealthSnapshot tables).status = .degraded := by
    refine if_pos ?_
    rw [Bool.or_eq_true, Bool.or_eq_true]
    exact .inl (.inr h)
  rw [statusCode, hdegraded]
  rfl

end HealthDeps

end Stunks.Indexer
