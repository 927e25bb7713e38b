import Stunks.Indexer.Scanner

/-! `index.ts`: the scanners of the two streams, and the startup before they run. -/

namespace Stunks.Indexer

open Database

structure IndexerConfig where
  startBlock : Nat
  confirmationDepth : Nat
  factory : Address
  factoryTopics : List Hex
  curveTopics : List Hex

namespace IndexerConfig

variable {H : Type} {P : Type → Type} (cfg : IndexerConfig)

def factoryScanner (process : List (RawLog H) → Nat × Nat → Program H P Unit)
    (deleteTokensAbove : Nat → Program H P Unit) : ScannerOptions H P where
  stream := .factory
  startBlock := cfg.startBlock
  confirmationDepth := cfg.confirmationDepth
  addresses := return [cfg.factory]
  topics0 := some cfg.factoryTopics
  requireAddresses := false
  maxBlock := none
  process
  deleteAbove := deleteTokensAbove
  cascadeStreams := [.curves]

/-- Never scan past the factory: a trade needs its token to be indexed first. -/
def factoryCheckpoint : Program H P (Option Nat) := do
  let state ← Checkpoints.getOrCreate .factory cfg.startBlock
  return some state.lastProcessedBlock

def curveScanner (process : List (RawLog H) → Nat × Nat → Program H P Unit)
    (deleteTradesAbove : Nat → Program H P Unit) : ScannerOptions H P where
  stream := .curves
  startBlock := cfg.startBlock
  confirmationDepth := cfg.confirmationDepth
  addresses := return []
  topics0 := some cfg.curveTopics
  requireAddresses := false
  maxBlock := some cfg.factoryCheckpoint
  process
  deleteAbove := deleteTradesAbove
  cascadeStreams := []

/-- Skip the stretch of history before any curve existed. -/
def startup (earliestLaunchBlock : Program H P (Option Nat)) : Program H P Unit := do
  let _ ← Checkpoints.getOrCreate .factory cfg.startBlock
  let _ ← Checkpoints.getOrCreate .curves cfg.startBlock
  let earliest ← earliestLaunchBlock
  match earliest with
  | some earliest =>
    if earliest > 0 then do
      let _ ← Checkpoints.fastForward .curves (earliest - 1)
        "no curve existed before the earliest indexed launch"
      return ()
    else return ()
  | none => return ()

end IndexerConfig

end Stunks.Indexer
