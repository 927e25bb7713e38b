import Stunks.Indexer.Checkpoint
import Stunks.Indexer.Reorg

/-! `scanner.ts`: the scan loop.  Log output is left out. -/

namespace Stunks.Indexer

open Database

variable {H : Type} {P : Type → Type} [DecidableEq H]

structure ScannerOptions (H : Type) (P : Type → Type) where
  stream : IndexerStream
  startBlock : Nat
  confirmationDepth : Nat
  addresses : Program H P (List Address)
  topics0 : Option (List Hex)
  requireAddresses : Bool
  maxBlock : Option (Program H P (Option Nat))
  process : List (RawLog H) → Nat × Nat → Program H P Unit
  deleteAbove : Nat → Program H P Unit
  cascadeStreams : List IndexerStream

structure ScanTickResult where
  scanned : Nat
  logs : Nat
  fromBlock : Nat
  toBlock : Nat
  caughtUp : Bool
  reorged : Bool
  confirmedHead : Option Nat
  deriving DecidableEq

def noProgress (fromBlock lastProcessedBlock : Nat) (caughtUp : Bool) (confirmedHead : Option Nat) :
    ScanTickResult where
  scanned := 0
  logs := 0
  fromBlock
  toBlock := lastProcessedBlock
  caughtUp
  reorged := false
  confirmedHead

namespace Scanner

variable (options : ScannerOptions H P)

/-- Nothing is written while the database itself is down. -/
def handleDatabaseFailure (fromBlock lastProcessedBlock : Nat) : Program H P ScanTickResult :=
  return noProgress fromBlock lastProcessedBlock false none

/-- Record a temporary source problem without claiming a chain block is bad. -/
def handleSourceFailure (fromBlock lastProcessedBlock : Nat) (error : Failure) :
    Program H P ScanTickResult := do
  Checkpoints.recordError options.stream error.message
  return noProgress fromBlock lastProcessedBlock false none

def cascade (rollbackTo : Nat) (reason : String) : List IndexerStream → Program H P Unit
  | [] => return ()
  | dependent :: rest => do
    let _ ← Checkpoints.rollbackIfAhead dependent rollbackTo
      s!"{reason} (cascaded from the {options.stream.text} stream)"
    cascade rollbackTo reason rest

def rollback (recordedBlock rollbackTo : Nat) : Program H P Unit := do
  let reason := s!"hash mismatch at {recordedBlock}"
  options.deleteAbove rollbackTo
  let _ ← Checkpoints.rollbackTo options.stream rollbackTo reason
  cascade options rollbackTo reason options.cascadeStreams

def handleReorg (recordedBlock : Nat) (recordedHash : Option H) : Program H P Bool := do
  if recordedHash = none ∨ recordedBlock = 0 then return false
  else
    let current ← (Async.await (.blockHash recordedBlock)).attempt
    match current with
    | .error _ => return false
    | .ok currentHash =>
      match checkForReorg { recordedHash, recordedBlock, currentHash }
        options.confirmationDepth with
      | .reorg rollbackTo _ _ => do
        rollback options recordedBlock rollbackTo
        return true
      | _ => return false

/-- The end of a tick that has the logs of a window and the hash of its last block. -/
def ingest (checkpoint : IndexerState H) (confirmed : Option Nat) (boundary : Nat)
    (batch : LogBatch H) (reachedHash : H) : Program H P ScanTickResult := do
  let fromBlock := checkpoint.lastProcessedBlock + 1
  let reached := batch.reachedBlock
  let processed ← (options.process batch.logs (fromBlock, reached)).attempt
  match processed with
  | .error error =>
    if isDatabaseAvailabilityError error then
      handleDatabaseFailure fromBlock checkpoint.lastProcessedBlock
    else do
      Checkpoints.recordError options.stream error.message
      Checkpoints.recordFailedBlock options.stream fromBlock error.message
      Async.throw error
  | .ok () =>
    let advanced ← (do
      let _ ← Checkpoints.advance options.stream reached reachedHash
      let _ ← Checkpoints.resolveFailedBlocksThrough options.stream reached
      return () : Program H P Unit).attempt
    match advanced with
    | .error error =>
      if isDatabaseAvailabilityError error then
        handleDatabaseFailure fromBlock checkpoint.lastProcessedBlock
      else do
        Checkpoints.recordError options.stream error.message
        Async.throw error
    | .ok () =>
      return { scanned := reached - fromBlock + 1
               logs := batch.logs.length
               fromBlock
               toBlock := reached
               caughtUp := reached ≥ boundary
               reorged := false
               confirmedHead := confirmed }

def scan (checkpoint : IndexerState H) (confirmed : Option Nat) (boundary : Nat) :
    Program H P ScanTickResult := do
  let fromBlock := checkpoint.lastProcessedBlock + 1
  let addresses ← options.addresses
  if options.requireAddresses = true ∧ addresses.length = 0 then
    return noProgress fromBlock checkpoint.lastProcessedBlock true confirmed
  else
    let batch ← (Async.await (.getLogs
      { fromBlock, toBlock := boundary, addresses, topics0 := options.topics0 })).attempt
    match batch with
    | .error (.rangeTooWide _ _) =>
      return noProgress fromBlock checkpoint.lastProcessedBlock false confirmed
    | .error error => handleSourceFailure options fromBlock checkpoint.lastProcessedBlock error
    | .ok batch =>
      if batch.reachedBlock < fromBlock then
        return noProgress fromBlock checkpoint.lastProcessedBlock false confirmed
      else
        -- Before the processor runs, so that a failed hash read costs no replay.
        let reachedHash ← (Async.await (.blockHash batch.reachedBlock)).attempt
        match reachedHash with
        | .error error => handleSourceFailure options fromBlock checkpoint.lastProcessedBlock error
        | .ok reachedHash => ingest options checkpoint confirmed boundary batch reachedHash

def boundaryOf (confirmed : Option Nat) : Program H P (Option Nat) :=
  match confirmed, options.maxBlock with
  | some confirmed, some maxBlock => do
    let ceiling ← maxBlock
    match ceiling with
    | none => return none
    | some ceiling => return some (if ceiling < confirmed then ceiling else confirmed)
  | confirmed, _ => return confirmed

def tick : Program H P ScanTickResult := do
  let checkpoint ← Checkpoints.getOrCreate options.stream options.startBlock
  if checkpoint.isPaused then
    return noProgress checkpoint.lastProcessedBlock checkpoint.lastProcessedBlock true none
  else
    let reorged ← handleReorg options checkpoint.lastProcessedBlock
      checkpoint.lastProcessedBlockHash
    if reorged then
      return { noProgress checkpoint.lastProcessedBlock checkpoint.lastProcessedBlock false none with
        reorged := true }
    else
      let head ← (Async.await .head).attempt
      match head with
      | .error error =>
        handleSourceFailure options checkpoint.lastProcessedBlock checkpoint.lastProcessedBlock
          error
      | .ok head =>
        let confirmed := safeHead head options.confirmationDepth
        let boundary ← boundaryOf options confirmed
        match boundary with
        | none =>
          return noProgress checkpoint.lastProcessedBlock checkpoint.lastProcessedBlock true
            confirmed
        | some boundary =>
          if boundary ≤ checkpoint.lastProcessedBlock then
            return noProgress checkpoint.lastProcessedBlock checkpoint.lastProcessedBlock true
              confirmed
          else scan options checkpoint confirmed boundary

end Scanner

end Stunks.Indexer
