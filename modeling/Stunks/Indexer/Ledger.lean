import Stunks.Indexer.Chain
import Stunks.Indexer.Phases
import Stunks.Lib.Concurrent

namespace Stunks.Indexer

open Database

variable {H : Type} {β : Type}

inductive StreamCall (H : Type) : Type → Type
  | store (logs : List (RawLog H)) : StreamCall H Unit
  | deleteAbove (target : Nat) : StreamCall H Unit
  | ceiling : StreamCall H (Option Nat)

structure StreamConfig where
  stream : IndexerStream
  startBlock : Nat
  confirmationDepth : Nat
  addresses : List Address
  topics0 : Option (List Hex)
  requireAddresses : Bool
  hasCeiling : Bool
  cascadeStreams : List IndexerStream
  others : stream ∉ cascadeStreams

/-- A window that a tick has read: its last block, the chain that the logs came from, and the one
that the hash came from. -/
structure Reading where
  reached : Nat
  logsOf : Chain
  hashOf : Option Chain

def Reading.hashed (blockNumber : Nat) (chain : Chain) (reading : Reading) : Reading :=
  if reading.reached = blockNumber then { reading with hashOf := some chain } else reading

structure Ledger (H : Type) where
  chain : Chain
  rows : List (RawLog H)
  /-- Since the tick began, no request failed and no block was replaced. -/
  quiet : Bool
  forked : Bool
  reading : Option Reading

def Ledger.fresh (chain : Chain) : World H (Ledger H) where
  tables := .empty
  base := { chain, rows := [], quiet := true, forked := false, reading := none }

def Call.isAdvance {P : Type → Type} : Call H P β → Bool
  | .updateState _ (.advance _ _) => true
  | _ => false

def Call.finds {P : Type → Type} (chain : Chain) : Call H P β → Bool
  | .blockHash blockNumber => blockNumber < chain.length
  | _ => true

def Ledger.note (w : Ledger H) : Call H (StreamCall H) β → Except Failure β → Ledger H
  | .head, answer =>
    match answer with
    | .ok _ => w
    | .error _ => { w with quiet := false }
  | .getLogs query, answer =>
    match answer with
    | .ok batch =>
      if query.fromBlock ≤ batch.reachedBlock then
        { w with reading := some ⟨batch.reachedBlock, w.chain, none⟩ }
      else w
    | .error _ => { w with quiet := false }
  | .blockHash blockNumber, answer =>
    match answer with
    | .ok _ => { w with reading := w.reading.map (Reading.hashed blockNumber w.chain) }
    | .error _ => { w with quiet := false }
  | _, _ => w

def Ledger.setChain (w : Ledger H) (chain : Chain) : Ledger H :=
  let kept : Bool := w.chain <+: chain
  { w with chain, quiet := w.quiet && kept, forked := w.forked || !kept }

def Ledger.opened (w : Ledger H) : Ledger H := { w with quiet := true, reading := none }

namespace StreamConfig

variable (cfg : StreamConfig) (hash : Chain → H)

def options : ScannerOptions H (StreamCall H) where
  stream := cfg.stream
  startBlock := cfg.startBlock
  confirmationDepth := cfg.confirmationDepth
  addresses := return cfg.addresses
  topics0 := cfg.topics0
  requireAddresses := cfg.requireAddresses
  maxBlock := if cfg.hasCeiling then some (Async.await (.ext .ceiling)) else none
  process logs _ := Async.await (.ext (.store logs))
  deleteAbove target := Async.await (.ext (.deleteAbove target))
  cascadeStreams := cfg.cascadeStreams

def selects (log : RawLog H) : Bool :=
  LogQuery.selects
    { fromBlock := 0, toBlock := 0, addresses := cfg.addresses, topics0 := cfg.topics0 } log

def Canonical (c : Chain) (log : RawLog H) : Prop := OnChain hash c log ∧ cfg.selects log = true

/-- A source answers for blocks that the chain has at the time, and with all their logs. -/
def backend : Backend H (StreamCall H) (Option Nat) (Ledger H) where
  logs o w query :=
    let reached := min (min o.reached query.toBlock) (w.chain.length - 1)
    { logs := (logsBetween hash w.chain (query.fromBlock - 1) reached).filter query.selects
      reachedBlock := reached }
  blockHash _ w blockNumber :=
    if blockNumber < w.chain.length then some (hashAt hash w.chain blockNumber) else none
  ext call o w :=
    match call with
    | .store logs => (.ok (), { w with rows := Table.insertMany RawLog.key w.rows logs })
    | .deleteAbove target =>
      (.ok (), { w with rows := w.rows.filter fun row => row.blockNumber ≤ target })
    | .ceiling => (.ok o.ext, w)

def exec (call : Call H (StreamCall H) β) (o : Answers (Option Nat)) (w : World H (Ledger H)) :
    Except Failure β × World H (Ledger H) :=
  let (answer, w') := (backend hash).exec call o w
  (answer, { w' with base := w'.base.note call answer })

abbrev RunState (H : Type) :=
  System.Config Unit (Call H (StreamCall H)) Failure ScanTickResult (World H (Ledger H))

/-- The ticks of the stream one after another.  The environment sets the chain: it grows, or it
is reorganised. -/
def system [DecidableEq H] : System Unit (Call H (StreamCall H)) Failure ScanTickResult
    (Answers (Option Nat)) Chain (World H (Ledger H)) where
  exec _ _ := exec hash
  body _ := Scanner.tick cfg.options
  ready _ _ := true
  start _ w := { w with base := w.base.opened }
  finish _ _ w := w
  env chain w := { w with base := w.base.setChain chain }
  crash w := w

end StreamConfig

end Stunks.Indexer
