import Mathlib.Algebra.GroupWithZero.Nat
import Stunks.Database.Client
import Stunks.Indexer.Sources.Types
import Stunks.Utils.Text

/-! `sources/hypersync.ts`: logs from an archive that answers in pages. -/

namespace Stunks.Indexer

open Database

/-- `Number(n)`: the nearest number of 53 bits, ties to even. -/
def toNumber (n : Nat) : Nat :=
  let unit := 2 ^ (n.log2 - 52)
  let kept := n / unit
  let lost := n % unit
  (if unit < 2 * lost ∨ (2 * lost = unit ∧ kept % 2 = 1) then kept + 1 else kept) * unit

example : toNumber (2 ^ 53 + 1) = 2 ^ 53 := by decide

structure HyperSyncLog where
  blockNumber : Option Nat
  transactionHash : Option Hex
  logIndex : Option Nat
  address : Option Address
  data : Option (List UInt8)
  topic0 : Option Hex
  topic1 : Option Hex
  topic2 : Option Hex
  topic3 : Option Hex
  blockHash : Option Hex

structure HyperSyncResponse where
  data : Option (List (Option (List HyperSyncLog)))
  nextBlock : Option Nat

structure HyperSyncRequest where
  fromBlock : Nat
  /-- Exclusive. -/
  toBlock : Nat
  /-- No address means any. -/
  address : Option (List Address)

inductive HyperSyncReply
  | ok (payload : HyperSyncResponse)
  | refused (status : Nat) (text : String)

namespace HyperSyncLogSource

def body (query : LogQuery) : HyperSyncRequest where
  fromBlock := toNumber query.fromBlock
  toBlock := toNumber query.toBlock + 1
  address := if query.addresses.length > 0 then some query.addresses else none

def refusal (status : Nat) (text : String) : Failure :=
  if status = 401 then
    .error none ("HyperSync rejected the token. Get a free one at " ++
      "https://app.envio.dev/api-tokens and set HYPERSYNC_BEARER_TOKEN.")
  else
    let shown := String.ofList (sliceUnits 120 text.toList)
    .error none s!"HyperSync query failed: HTTP {status} {shown}"

def widen (topics0 : Option (List Hex)) (log : HyperSyncLog) : Option (RawLog Hex) := do
  let blockNumber ← log.blockNumber
  let transactionHash ← log.transactionHash
  let logIndex ← log.logIndex
  let address ← log.address
  let blockHash ← log.blockHash
  let topics := [log.topic0, log.topic1, log.topic2, log.topic3].filterMap id
  let kept := match topics0 with
    | none => true
    | some topics0 => topics.head?.any fun topic0 => topics0.contains topic0
  if kept then
    some { address, topics, data := log.data.getD [], blockNumber, blockHash, transactionHash,
           logIndex }
  else none

/-- `next_block` is the first block NOT covered, so the batch reached one below it. -/
def reached (query : LogQuery) (payload : HyperSyncResponse) : Nat :=
  match payload.nextBlock with
  | some nextBlock => if nextBlock > toNumber query.fromBlock then nextBlock - 1 else query.toBlock
  | none => query.toBlock

def batch (query : LogQuery) (payload : HyperSyncResponse) : LogBatch Hex where
  logs := ((payload.data.getD []).flatMap fun page => page.getD []).filterMap (widen query.topics0)
  reachedBlock :=
    if reached query payload < query.toBlock then reached query payload else query.toBlock

def getLogs (post : HyperSyncRequest → HyperSyncReply) (query : LogQuery) :
    Except Failure (LogBatch Hex) :=
  match post (body query) with
  | .ok payload => .ok (batch query payload)
  | .refused status text => .error (refusal status text)

def Covers (query : LogQuery) (payload : HyperSyncResponse) : Prop :=
  ∀ nextBlock, payload.nextBlock = some nextBlock →
    (batch query payload).reachedBlock < nextBlock ∧
      (batch query payload).reachedBlock ≤ query.toBlock

def Advances (query : LogQuery) (payload : HyperSyncResponse) : Prop :=
  ∀ nextBlock, payload.nextBlock = some nextBlock →
    toNumber query.fromBlock < nextBlock ∨ query.toBlock < nextBlock

instance (query : LogQuery) (payload : HyperSyncResponse) : Decidable (Advances query payload) :=
  match h : payload.nextBlock with
  | none => isTrue fun _ hsome => by simp [h] at hsome
  | some nextBlock =>
    decidable_of_iff (toNumber query.fromBlock < nextBlock ∨ query.toBlock < nextBlock)
      ⟨fun hor _ hsome => by rw [h, Option.some.injEq] at hsome; rwa [← hsome],
        fun hadv => hadv nextBlock h⟩

theorem covers_iff (query : LogQuery) (payload : HyperSyncResponse) :
    Covers query payload ↔ Advances query payload := by
  refine forall₂_congr fun nextBlock hnext => ?_
  simp only [batch, reached, hnext]
  split <;> split <;> omega

end HyperSyncLogSource

end Stunks.Indexer
