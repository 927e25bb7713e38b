import Stunks.Database.Client
import Stunks.Lib.Table
import Stunks.Utils.Text

namespace Stunks.Database

inductive IndexerStream
  | factory
  | curves
  | v4PoolManager
  | transfers
  deriving DecidableEq

def IndexerStream.text : IndexerStream → String
  | factory => "factory"
  | curves => "curves"
  | v4PoolManager => "v4-pool-manager"
  | transfers => "transfers"

/-- `indexer_state`.  `H` is the type of block hashes; equal hashes are equal up to case. -/
structure IndexerState (H : Type) where
  lastProcessedBlock : Nat
  lastProcessedBlockHash : Option H
  lastError : Option String
  isPaused : Bool
  deriving DecidableEq

structure FailedBlock where
  stream : IndexerStream
  blockNumber : Nat
  attempts : Nat
  lastError : String
  resolved : Bool
  deriving DecidableEq

def FailedBlock.key (block : FailedBlock) : IndexerStream × Nat := (block.stream, block.blockNumber)

/-- `text.slice(0, 1000)` -/
def sliceError (text : String) : String := String.ofList (sliceUnits 1000 text.toList)

inductive StateUpdate (H : Type)
  | advance (toBlock : Nat) (blockHash : H)
  | rollbackTo (toBlock : Nat) (reason : String)
  | fastForward (toBlock : Nat) (reason : String)
  | recordError (error : String)
  deriving DecidableEq

variable {H : Type}

def StateUpdate.apply (state : IndexerState H) : StateUpdate H → IndexerState H
  | advance toBlock blockHash => { state with
      lastProcessedBlock := toBlock
      lastProcessedBlockHash := some blockHash
      lastError := none }
  | rollbackTo toBlock reason => { state with
      lastProcessedBlock := toBlock
      lastProcessedBlockHash := none
      lastError := some s!"Rolled back to {toBlock}: {reason}" }
  | fastForward toBlock reason => { state with
      lastProcessedBlock := toBlock
      lastProcessedBlockHash := none
      lastError := some s!"Fast-forwarded to {toBlock}: {reason}" }
  | recordError error => { state with lastError := some (sliceError error) }

def StateUpdate.toBlock : StateUpdate H → Option Nat
  | advance toBlock _ => some toBlock
  | rollbackTo toBlock _ => some toBlock
  | fastForward toBlock _ => some toBlock
  | recordError _ => none

abbrev States (H : Type) := IndexerStream → Option (IndexerState H)

structure Tables (H : Type) where
  states : States H
  failedBlocks : List FailedBlock

def recordNotFound : Failure := .error (some "P2025") "No record was found for an update."

namespace Tables

def empty : Tables H := { states := fun _ => none, failedBlocks := [] }

def setState (t : Tables H) (stream : IndexerStream) (state : IndexerState H) : Tables H :=
  { t with states := fun other => if other = stream then some state else t.states other }

@[simp] theorem setState_states_self (t : Tables H) (stream : IndexerStream)
    (state : IndexerState H) : (t.setState stream state).states stream = some state := by
  simp [setState]

theorem setState_states_ne (t : Tables H) {stream other : IndexerStream} (state : IndexerState H)
    (h : other ≠ stream) : (t.setState stream state).states other = t.states other := by
  simp [setState, h]

theorem setState_stands {t : Tables H} {other : IndexerStream}
    (h : ∃ row, t.states other = some row) (stream : IndexerStream) (state : IndexerState H) :
    ∃ row, (t.setState stream state).states other = some row := by
  by_cases hother : other = stream
  · exact ⟨state, hother ▸ t.setState_states_self stream state⟩
  · rw [setState_states_ne t state hother]
    exact h

def upsertState (t : Tables H) (stream : IndexerStream) (startBlock : Nat) :
    IndexerState H × Tables H :=
  match t.states stream with
  | some state => (state, t)
  | none =>
    let state := { lastProcessedBlock := startBlock, lastProcessedBlockHash := none,
                   lastError := none, isPaused := false }
    (state, t.setState stream state)

def updateState (t : Tables H) (stream : IndexerStream) (data : StateUpdate H) :
    Except Failure (IndexerState H) × Tables H :=
  match t.states stream with
  | some state => (.ok (data.apply state), t.setState stream (data.apply state))
  | none => (.error recordNotFound, t)

def upsertFailedBlock (t : Tables H) (stream : IndexerStream) (blockNumber : Nat)
    (error : String) : Tables H :=
  let attempts := match t.failedBlocks.find? fun block => block.key = (stream, blockNumber) with
    | some block => block.attempts + 1
    | none => 1
  let block := { stream, blockNumber, attempts, lastError := sliceError error, resolved := false }
  { t with failedBlocks := Table.upsert FailedBlock.key t.failedBlocks block }

def resolveFailedBlocks (t : Tables H) (stream : IndexerStream) (throughBlock : Nat) :
    Nat × Tables H :=
  let unresolved := fun block : FailedBlock =>
    block.stream = stream ∧ block.blockNumber ≤ throughBlock ∧ block.resolved = false
  (t.failedBlocks.countP fun block => unresolved block,
    { t with failedBlocks := t.failedBlocks.map fun block =>
        if unresolved block then { block with resolved := true } else block })

end Tables

end Stunks.Database
