/-! `sources/types.ts`: what a log source is asked and what it answers. -/

namespace Stunks.Indexer

/-- A hex string of fixed width, as the number it spells: comparing two ignores their case. -/
abbrev Hex := Nat

abbrev Address := Hex

structure RawLog (H : Type) where
  address : Address
  topics : List Hex
  data : List UInt8
  blockNumber : Nat
  blockHash : H
  transactionHash : Hex
  logIndex : Nat
  deriving DecidableEq

structure LogQuery where
  fromBlock : Nat
  toBlock : Nat
  /-- Empty means any address. -/
  addresses : List Address
  topics0 : Option (List Hex) := none

/-- The scanner checkpoints to `reachedBlock`, never to the requested `toBlock`. -/
structure LogBatch (H : Type) where
  logs : List (RawLog H)
  reachedBlock : Nat

end Stunks.Indexer
