import Stunks.Indexer.Calls
import Stunks.Lib.Await

/-! `repositories/checkpoint.ts`: indexer checkpoints. -/

namespace Stunks.Indexer

open Database

abbrev Program (H : Type) (P : Type → Type) := Async (Call H P) Failure

variable {H : Type} {P : Type → Type}

namespace Checkpoints

def getOrCreate (stream : IndexerStream) (startBlock : Nat) : Program H P (IndexerState H) :=
  Async.await (.upsertState stream startBlock)

def refusal (stream : IndexerStream) (lastProcessedBlock toBlock : Nat) : Failure :=
  .error none (s!"Refusing to move checkpoint backwards for {stream.text}: at " ++
    s!"{lastProcessedBlock}, asked to set {toBlock}. Use rollbackTo() " ++
    "if a reorg was detected.")

/-- Deliberately refuses to move backwards. -/
def advance (stream : IndexerStream) (toBlock : Nat) (blockHash : H) :
    Program H P (IndexerState H) := do
  let current ← Async.await (.findState stream)
  match current with
  | some state =>
    if state.lastProcessedBlock > toBlock then
      Async.throw (refusal stream state.lastProcessedBlock toBlock)
    else Async.await (.updateState stream (.advance toBlock blockHash))
  | none => Async.await (.updateState stream (.advance toBlock blockHash))

def rollbackTo (stream : IndexerStream) (toBlock : Nat) (reason : String) :
    Program H P (IndexerState H) :=
  Async.await (.updateState stream (.rollbackTo toBlock reason))

def rollbackIfAhead (stream : IndexerStream) (toBlock : Nat) (reason : String) :
    Program H P (Option (IndexerState H)) := do
  let current ← Async.await (.findState stream)
  match current with
  | some state =>
    if state.lastProcessedBlock ≤ toBlock then return none
    else do
      let state ← rollbackTo stream toBlock reason
      return some state
  | none => return none

def fastForward (stream : IndexerStream) (toBlock : Nat) (reason : String) :
    Program H P (Option (IndexerState H)) := do
  let current ← Async.await (.findState stream)
  match current with
  | some state =>
    if state.lastProcessedBlock ≥ toBlock then return some state
    else do
      let state ← Async.await (.updateState stream (.fastForward toBlock reason))
      return some state
  | none => return none

def recordError (stream : IndexerStream) (error : String) : Program H P Unit := do
  let _ ← Async.await (.updateState stream (.recordError error))
  return ()

def recordFailedBlock (stream : IndexerStream) (blockNumber : Nat) (error : String) :
    Program H P Unit :=
  Async.await (.upsertFailedBlock stream blockNumber error)

def resolveFailedBlocksThrough (stream : IndexerStream) (throughBlock : Nat) : Program H P Nat :=
  Async.await (.resolveFailedBlocks stream throughBlock)

end Checkpoints

end Stunks.Indexer
