import Stunks.Indexer.Sources.Types
import Stunks.Web3.Errors
import Stunks.Web3.LogRange

/-! `sources/rpc.ts`: `eth_getLogs` over a window that the source narrows on rejection. -/

namespace Stunks.Indexer

open Web3

def maxLogAddressesPerQuery : Nat := 1000

/-- The wire shape of a log; a hex quantity is the number it spells. -/
structure RawJsonRpcLog where
  address : Address
  topics : List Hex
  data : List UInt8
  blockNumber : Option Nat
  blockHash : Option Hex
  transactionHash : Option Hex
  logIndex : Option Nat

structure LogFilter where
  fromBlock : Nat
  toBlock : Nat
  address : Option (List Address)
  topics : Option (List (List Hex))

def LogFilter.span (filter : LogFilter) : Nat := filter.toBlock + 1 - filter.fromBlock

def addressChunks (addresses : List Address) (topicSelectorCount : Nat) : List (List Address) :=
  if addresses.length = 0 then [[]]
  else
    let addressesPerChunk := max 1 (maxLogAddressesPerQuery - topicSelectorCount)
    (List.range ((addresses.length + addressesPerChunk - 1) / addressesPerChunk)).map fun i =>
      (addresses.drop (i * addressesPerChunk)).take addressesPerChunk

inductive SourceError
  | rangeTooWide (attempted : Nat) (message : String)
  | thrown (error : Thrown)

def logFilter (fromBlock toBlock : Nat) (addresses : List Address) (topics0 : Option (List Hex)) :
    LogFilter where
  fromBlock
  toBlock
  address := if addresses.length > 0 then some addresses else none
  topics := match topics0 with
    | some topics0 => if topics0.length > 0 then some [topics0] else none
    | none => none

def widenLog (topics0 : Option (List Hex)) (log : RawJsonRpcLog) : Option (RawLog Hex) := do
  let blockNumber ← log.blockNumber
  let blockHash ← log.blockHash
  let transactionHash ← log.transactionHash
  let logIndex ← log.logIndex
  let kept := match topics0 with
    | none => true
    | some topics0 => match log.topics with
      | [] => false
      | topic0 :: _ => topics0.contains topic0
  if kept then
    some { log with blockNumber, blockHash, transactionHash, logIndex }
  else none

def LogQuery.requested (query : LogQuery) : Nat := query.toBlock + 1 - query.fromBlock

def clampedTo (window : AdaptiveLogWindow) (query : LogQuery) : Nat :=
  let requested := query.requested
  let allowed := window.current
  if requested > allowed then query.fromBlock + allowed - 1 else query.toBlock

def LogQuery.topicSelectorCount (query : LogQuery) : Nat :=
  match query.topics0 with
  | some topics0 => topics0.length
  | none => 0

/-- The chunks are requested concurrently; a rejection of any of them rejects the call. -/
def getLogs (request : LogFilter → Except Thrown (List RawJsonRpcLog))
    (window : AdaptiveLogWindow) (query : LogQuery) :
    Except SourceError (LogBatch Hex) × AdaptiveLogWindow :=
  let toBlock := clampedTo window query
  let chunks := addressChunks query.addresses query.topicSelectorCount
  match chunks.mapM fun addresses =>
      request (logFilter query.fromBlock toBlock addresses query.topics0) with
  | .ok chunkLogs =>
    (.ok { logs := chunkLogs.flatten.filterMap (widenLog query.topics0), reachedBlock := toBlock },
      window.onSuccess)
  | .error error =>
    match findRpcCallError error with
    | some failure =>
      if failure.kind = .logRangeTooWide ∨ failure.kind = .timeout then
        let narrowed := window.onRejected
        (.error (.rangeTooWide (toBlock + 1 - query.fromBlock)
          s!"Endpoint rejected the range ({failure.kind.text}); window narrowed to {narrowed.span}. Retry."),
          narrowed)
      else (.error (.thrown error), window)
    | none => (.error (.thrown error), window)

def attempted (window : AdaptiveLogWindow) (query : LogQuery) : Nat :=
  clampedTo window query + 1 - query.fromBlock

theorem attempted_eq {window : AdaptiveLogWindow} (query : LogQuery) (h : 0 < window.span) :
    attempted window query = min query.requested window.span := by
  unfold attempted clampedTo AdaptiveLogWindow.current LogQuery.requested
  simp only
  split <;> omega

theorem addressChunks_ne_nil (addresses : List Address) (n : Nat) :
    addressChunks addresses n ≠ [] := by
  unfold addressChunks
  split
  · simp
  · rename_i h
    have hpos : 0 < max 1 (maxLogAddressesPerQuery - n) := by omega
    simp only [ne_eq, List.map_eq_nil_iff, List.range_eq_nil]
    rw [Nat.div_eq_zero_iff]
    omega

theorem mapM_ok {α β ε : Type} {f : α → Except ε β} {l : List α}
    (h : ∀ a ∈ l, ∃ b, f a = .ok b) : ∃ bs, l.mapM f = .ok bs := by
  induction l with
  | nil => exact ⟨[], rfl⟩
  | cons a l ih =>
    obtain ⟨b, hb⟩ := h a (by simp)
    obtain ⟨bs, hbs⟩ := ih fun a ha => h a (by simp [ha])
    refine ⟨b :: bs, ?_⟩
    rw [List.mapM_cons, hb, ok_bind, hbs, ok_bind]
    rfl

theorem mapM_error {α β ε : Type} {f : α → Except ε β} {a : α} {l : List α} {e : ε}
    (h : f a = .error e) : (a :: l).mapM f = .error e := by
  rw [List.mapM_cons, h, error_bind]

end Stunks.Indexer
