import Stunks.Indexer.Phases
import Stunks.Indexer.Streams
import Stunks.Lib.Concurrent

/-! The two streams in one process: a rollback of the factory takes trades of the curve stream with
it.  What a window holds is left open, and `process` is one call. -/

namespace Stunks.Indexer

open Database

variable {H β : Type}

inductive Slot
  | factory
  | curves
  deriving DecidableEq

namespace Slot

def stream : Slot → IndexerStream
  | factory => .factory
  | curves => .curves

def other : Slot → Slot
  | factory => curves
  | curves => factory

theorem other_eq {slot slot' : Slot} (h : slot' ≠ slot) : slot.other = slot' := by
  cases slot <;> cases slot' <;> first | rfl | exact absurd rfl h

end Slot

structure LaunchRow where
  token : Address
  launchBlock : Nat
  deriving DecidableEq

structure TradeRow where
  token : Address
  blockNumber : Nat
  transactionHash : Hex
  logIndex : Nat
  deriving DecidableEq

def TradeRow.key (row : TradeRow) : Hex × Nat := (row.transactionHash, row.logIndex)

def TradeRow.follows (row : TradeRow) (launch : LaunchRow) : Bool :=
  launch.token = row.token && launch.launchBlock ≤ row.blockNumber

inductive CascadeCall : Type → Type
  | deleteTokensAbove (blockNumber : Nat) : CascadeCall Unit
  | storeLaunches (fromBlock toBlock : Nat) : CascadeCall Unit
  | deleteTradesAbove (blockNumber : Nat) : CascadeCall Unit
  | storeTrades (fromBlock toBlock : Nat) : CascadeCall Unit
  | earliestLaunchBlock : CascadeCall (Option Nat)

/-- The last tick of the curve stream, against the last rollback of the factory. -/
structure Turn where
  loaded : Nat
  /-- It read its ceiling after the factory's checkpoint was moved back. -/
  ceiled : Bool
  reached : Nat
  /-- It processed its window after the factory's checkpoint was moved back. -/
  processed : Bool

namespace Turn

variable (turn : Turn)

def load : Except Failure (IndexerState H) → Turn
  | .ok state =>
    { loaded := state.lastProcessedBlock, ceiled := false, reached := 0, processed := false }
  | .error _ => turn

def reach : Except Failure (LogBatch H) → Turn
  | .ok batch => { turn with reached := batch.reachedBlock }
  | .error _ => turn

end Turn

structure CascadeRows where
  tokens : List LaunchRow
  trades : List TradeRow
  /-- Trades that went with the token they belong to. -/
  lost : List TradeRow
  /-- Blocks of rows that a rollback of the factory deleted, and that the curve stream has not
  processed since. -/
  stale : List Nat
  processed : List (Nat × Nat)
  /-- The factory's checkpoint has been moved back, the one of the curve stream not yet. -/
  cascading : Option Nat
  /-- The rollback point that the checkpoint of the curve stream was last held against. -/
  cascaded : Option Nat
  /-- The same for all rollbacks since the tick of the curve stream began. -/
  rewound : List Nat
  turn : Turn
  ticked : Bool
  reorging : Bool
  checked : Slot → Bool
  booted : Bool

namespace CascadeRows

variable (s : CascadeRows)

def cascade (target : Nat) : CascadeRows :=
  { s with cascading := none, cascaded := some target, rewound := target :: s.rewound
           checked := Function.update s.checked .factory true }

def check (slot : Slot) : CascadeRows := { s with checked := Function.update s.checked slot true }

def deleteTokensAbove (blockNumber : Nat) : CascadeRows :=
  let tokens := s.tokens.filter fun launch => launch.launchBlock ≤ blockNumber
  let kept := fun trade : TradeRow => tokens.any fun launch => launch.token = trade.token
  let gone := s.trades.filter fun trade => !kept trade
  { s with
    tokens
    trades := s.trades.filter kept
    lost := s.lost ++ gone
    stale := s.stale ++ (s.tokens.filter fun launch => blockNumber < launch.launchBlock).map
      LaunchRow.launchBlock ++ gone.map TradeRow.blockNumber
    reorging := true }

def storeLaunches (launches : List LaunchRow) (fromBlock toBlock : Nat) : CascadeRows :=
  let window := launches.filter fun launch =>
    fromBlock ≤ launch.launchBlock && launch.launchBlock ≤ toBlock
  { s with tokens := Table.insertMany LaunchRow.token s.tokens window, reorging := false }

def deleteTradesAbove (blockNumber : Nat) : CascadeRows :=
  { s with trades := s.trades.filter fun trade => trade.blockNumber ≤ blockNumber }

/-- Trades of an unknown token are skipped.  No curve emits anything before its launch. -/
def storeTrades (trades : List TradeRow) (fromBlock toBlock : Nat) : CascadeRows :=
  let window := trades.filter fun trade => fromBlock ≤ trade.blockNumber &&
    trade.blockNumber ≤ toBlock && s.tokens.any trade.follows
  { s with
    trades := Table.insertMany TradeRow.key s.trades window
    processed := (fromBlock, toBlock) :: s.processed
    turn := { s.turn with processed := true }
    stale := s.stale.filter fun block => !(fromBlock ≤ block && block ≤ toBlock) }

structure Placed (tokens : List LaunchRow) (trades : List TradeRow) : Prop where
  unique : (tokens.map LaunchRow.token).Nodup
  follows : ∀ trade ∈ trades, ∃ launch ∈ tokens, trade.follows launch = true

variable {s} {target fromBlock toBlock : Nat}

theorem Placed.lost_above (h : Placed s.tokens s.trades) {trade : TradeRow}
    (htrade : trade ∈ (s.deleteTokensAbove target).lost) :
    trade ∈ s.lost ∨ target < trade.blockNumber := by
  refine (List.mem_append.mp htrade).imp_right fun hgone => ?_
  obtain ⟨hmem, hnone⟩ := List.mem_filter.mp hgone
  obtain ⟨launch, hlaunch, hfollows⟩ := h.follows trade hmem
  simp only [TradeRow.follows, Bool.and_eq_true, decide_eq_true_eq] at hfollows
  by_contra hle
  have hkept : launch ∈ s.tokens.filter fun launch => decide (launch.launchBlock ≤ target) :=
    List.mem_filter.mpr ⟨hlaunch, decide_eq_true (by omega)⟩
  simp only [Bool.not_eq_true', List.any_eq_false, decide_eq_true_eq] at hnone
  exact hnone launch hkept hfollows.1

theorem Placed.deleteTokensAbove (h : Placed s.tokens s.trades) :
    Placed (s.deleteTokensAbove target).tokens (s.deleteTokensAbove target).trades where
  unique := h.unique.sublist (List.filter_sublist.map _)
  follows trade htrade := by
    obtain ⟨hmem, hkept⟩ := List.mem_filter.mp htrade
    obtain ⟨kept, hkept, htoken⟩ := List.any_eq_true.mp hkept
    obtain ⟨launch, hlaunch, hfollows⟩ := h.follows trade hmem
    simp only [TradeRow.follows, Bool.and_eq_true, decide_eq_true_eq] at hfollows htoken
    have hsame : kept = launch := List.inj_on_of_nodup_map h.unique (List.mem_filter.mp hkept).1
      hlaunch (htoken.trans hfollows.1.symm)
    refine ⟨kept, hkept, ?_⟩
    simp [TradeRow.follows, hsame, hfollows]

theorem Placed.storeLaunches (h : Placed s.tokens s.trades) {launches : List LaunchRow} :
    Placed (s.storeLaunches launches fromBlock toBlock).tokens s.trades where
  unique := Table.nodup_insertMany h.unique
  follows trade htrade := by
    obtain ⟨launch, hlaunch, hfollows⟩ := h.follows trade htrade
    exact ⟨launch, Table.mem_insertMany_of_mem hlaunch, hfollows⟩

theorem Placed.deleteTradesAbove (h : Placed s.tokens s.trades) :
    Placed s.tokens (s.deleteTradesAbove target).trades where
  unique := h.unique
  follows trade htrade := h.follows trade (List.mem_filter.mp htrade).1

theorem Placed.storeTrades (h : Placed s.tokens s.trades) {trades : List TradeRow} :
    Placed s.tokens (s.storeTrades trades fromBlock toBlock).trades where
  unique := h.unique
  follows trade htrade := by
    rcases Table.of_mem_insertMany htrade with hold | hnew
    · exact h.follows trade hold
    · have hwindow := (List.mem_filter.mp hnew).2
      simp only [Bool.and_eq_true, List.any_eq_true] at hwindow
      exact hwindow.2

end CascadeRows

structure CascadeReply (H : Type) where
  hash : Option H
  launches : List LaunchRow
  trades : List TradeRow

namespace IndexerConfig

variable (cfg : IndexerConfig)

def slotScanner : Slot → ScannerOptions H CascadeCall
  | .factory => cfg.factoryScanner
    (fun _ window => Async.await (.ext (.storeLaunches window.1 window.2)))
    fun blockNumber => Async.await (.ext (.deleteTokensAbove blockNumber))
  | .curves => cfg.curveScanner
    (fun _ window => Async.await (.ext (.storeTrades window.1 window.2)))
    fun blockNumber => Async.await (.ext (.deleteTradesAbove blockNumber))

def cascadeBackend : Backend H CascadeCall (CascadeReply H) CascadeRows where
  logs o _ query := { logs := [], reachedBlock := min o.reached query.toBlock }
  blockHash o _ _ := o.ext.hash
  ext call o s :=
    match call with
    | .deleteTokensAbove blockNumber => (.ok (), s.deleteTokensAbove blockNumber)
    | .storeLaunches fromBlock toBlock => (.ok (), s.storeLaunches o.ext.launches fromBlock toBlock)
    | .deleteTradesAbove blockNumber => (.ok (), s.deleteTradesAbove blockNumber)
    | .storeTrades fromBlock toBlock => (.ok (), s.storeTrades o.ext.trades fromBlock toBlock)
    | .earliestLaunchBlock => (.ok (s.tokens.map LaunchRow.launchBlock).min?, s)

end IndexerConfig

namespace CascadeRows

def noteMove (s : CascadeRows) (stream : IndexerStream) : StateUpdate H → CascadeRows
  | .rollbackTo toBlock _ =>
    if stream = .factory then
      { s with cascading := some toBlock, processed := []
               turn := { s.turn with ceiled := false, processed := false } }
    else s.cascade toBlock
  | _ => s

def noteLook (s : CascadeRows) : Except Failure (Option (IndexerState H)) → CascadeRows
  | .ok current =>
    match s.cascading with
    | some target =>
      if current.all fun state => state.lastProcessedBlock ≤ target then s.cascade target else s
    | none => s
  | .error _ => s

def noteFactory (s : CascadeRows) (applied : Bool) :
    Call H CascadeCall β → Except Failure β → CascadeRows
  | .upsertState _ _, _ => { s with ticked := true }
  | .updateState stream data, _ => if applied then s.noteMove stream data else s
  | .findState stream, answer => if stream = .curves then s.noteLook answer else s
  | .head, _ => s.check .factory
  | _, _ => s

def noteRewind (s : CascadeRows) : StateUpdate H → CascadeRows
  | .rollbackTo _ _ => s.check .curves
  | _ => s

def noteRead (s : CascadeRows) (stream : IndexerStream)
    (answer : Except Failure (IndexerState H)) : CascadeRows :=
  if stream = .curves then { s with rewound := [], turn := s.turn.load answer }
  else { s with turn := { s.turn with ceiled := true } }

def noteCurves (s : CascadeRows) (applied : Bool) :
    Call H CascadeCall β → Except Failure β → CascadeRows
  | .upsertState stream _, answer => s.noteRead stream answer
  | .updateState _ data, _ => if applied then s.noteRewind data else s
  | .head, _ => s.check .curves
  | .getLogs _, answer => { s with turn := s.turn.reach answer }
  | _, _ => s

def note (slot : Slot) (s : CascadeRows) (applied : Bool) (call : Call H CascadeCall β)
    (answer : Except Failure β) : CascadeRows :=
  match slot with
  | .factory => s.noteFactory applied call answer
  | .curves => s.noteCurves applied call answer

def crashed (s : CascadeRows) : CascadeRows :=
  { s with cascading := none, rewound := [], checked := fun _ => false, booted := false }

end CascadeRows

namespace IndexerConfig

variable (cfg : IndexerConfig)

abbrev CascadeWorld (H : Type) := World H CascadeRows

def cascadeExec (slot : Slot) (call : Call H CascadeCall β) (o : Answers (CascadeReply H))
    (w : CascadeWorld H) : Except Failure β × CascadeWorld H :=
  let (answer, w') := cascadeBackend.exec call o w
  (answer, { w' with base := w'.base.note slot o.applied call answer })

def boot (answers : List (Answers (CascadeReply H))) (w : CascadeWorld H) : CascadeWorld H :=
  let (result, w') := (cfg.startup (Async.await (.ext .earliestLaunchBlock))).drive
    cascadeBackend.exec answers w
  match result with
  | some (.ok _) => { w' with base := { w'.base with booted := true } }
  | _ => w'

abbrev CascadeState (H : Type) :=
  System.Config Slot (Call H CascadeCall) Failure ScanTickResult (CascadeWorld H)

/-- The ticks of both streams, interleaved call by call.  After a crash the environment restarts the
indexer. -/
def cascadeSystem [DecidableEq H] : System Slot (Call H CascadeCall) Failure ScanTickResult
    (Answers (CascadeReply H)) (List (Answers (CascadeReply H))) (CascadeWorld H) where
  exec slot _ := cascadeExec slot
  body slot := Scanner.tick (cfg.slotScanner slot)
  ready _ w := w.base.booted
  start _ w := w
  finish _ _ w := w
  env answers w := if w.base.booted then w else cfg.boot answers w
  crash w := { w with base := w.base.crashed }

abbrev CascadeLabel (H : Type) :=
  System.Label Slot (Answers (CascadeReply H)) (List (Answers (CascadeReply H)))

section exec

variable {slot : Slot} {call : Call H CascadeCall β} {o : Answers (CascadeReply H)}
  {w : CascadeWorld H} {stream : IndexerStream} {state : IndexerState H}

theorem cascadeExec_other (hmove : call.isMove = false) (hown : call.isOwn = false) :
    (cascadeExec slot call o w).2.tables.states = w.tables.states ∧
      (cascadeExec slot call o w).2.base =
        w.base.note slot o.applied call (cascadeExec slot call o w).1 := by
  simp only [cascadeExec]
  exact ⟨Backend.exec_states _ hmove, by rw [Backend.exec_base _ hown]⟩

theorem cascadeExec_findState :
    (cascadeExec slot (.findState stream) o w).2.tables.states = w.tables.states ∧
      (cascadeExec slot (.findState stream) o w).2.base =
        w.base.note slot o.applied (.findState stream)
          (cascadeExec slot (.findState stream) o w).1 ∧
      ∀ current, (cascadeExec slot (.findState stream) o w).1 = .ok current →
        current = w.tables.states stream := by
  obtain ⟨hstates, hbase⟩ := @cascadeExec_other H _ slot (.findState stream) o w rfl rfl
  exact ⟨hstates, hbase, (@Backend.exec_findState _ _ _ _ cascadeBackend o w stream).2⟩

theorem cascadeExec_upsertState {startBlock : Nat} (h : w.tables.states stream = some state) :
    (cascadeExec slot (.upsertState stream startBlock) o w).2.tables.states = w.tables.states ∧
      (cascadeExec slot (.upsertState stream startBlock) o w).2.base =
        w.base.note slot o.applied (.upsertState stream startBlock : Call H CascadeCall _)
          (cascadeExec slot (.upsertState stream startBlock) o w).1 ∧
      ∀ answer, (cascadeExec slot (.upsertState stream startBlock) o w).1 = .ok answer →
        answer = state := by
  obtain ⟨hsame, hanswer⟩ := @Backend.exec_upsertState _ _ _ _ cascadeBackend o _ _ _ startBlock h
  simp only [cascadeExec, hsame]
  exact ⟨trivial, trivial, hanswer⟩

theorem cascadeExec_updateState {data : StateUpdate H} (h : w.tables.states stream = some state) :
    ((∃ error, (cascadeExec slot (.updateState stream data) o w).1 = .error error) ∧
        (cascadeExec slot (.updateState stream data) o w).2.tables.states = w.tables.states ∧
        (cascadeExec slot (.updateState stream data) o w).2.base = w.base.note slot false
          (.updateState stream data) (cascadeExec slot (.updateState stream data) o w).1) ∨
      (cascadeExec slot (.updateState stream data) o w).2.tables.states =
          (w.tables.setState stream (data.apply state)).states ∧
        (cascadeExec slot (.updateState stream data) o w).2.base = w.base.note slot true
          (.updateState stream data) (cascadeExec slot (.updateState stream data) o w).1 := by
  have hexec := @Backend.exec_updateState _ _ _ _ cascadeBackend o _ _ _ data h
  cases happlied : o.applied with
  | true =>
    simp only [cascadeExec, hexec, happlied, if_true]
    exact .inr ⟨trivial, trivial⟩
  | false =>
    obtain ⟨fault, hfault⟩ : ∃ fault, o.fault = some fault := by
      cases hfault : o.fault with
      | none => simp [Answers.applied, hfault] at happlied
      | some fault => exact ⟨fault, rfl⟩
    have hanswer : (cascadeBackend.exec (.updateState stream data) o w).1 = .error fault.failure := by
      rw [Backend.exec_fault _ hfault]
    simp only [cascadeExec, hexec, happlied, Bool.false_eq_true, if_false]
    exact .inl ⟨⟨_, hanswer⟩, trivial, trivial⟩

theorem cascadeExec_finds (hfault : o.fault = none) :
    (cascadeExec slot (.findState stream) o w).1 = .ok (w.tables.states stream) := by
  simp [cascadeExec, Backend.exec_ok _ hfault, Backend.perform]

theorem cascadeExec_updates {data : StateUpdate H} (hfault : o.fault = none)
    (h : w.tables.states stream = some state) :
    (cascadeExec slot (.updateState stream data) o w).1 = .ok (data.apply state) ∧
      (cascadeExec slot (.updateState stream data) o w).2.tables.states =
        (w.tables.setState stream (data.apply state)).states ∧
      (cascadeExec slot (.updateState stream data) o w).2.base = w.base.note slot true
        (.updateState stream data) (cascadeExec slot (.updateState stream data) o w).1 := by
  have hanswer : (cascadeExec slot (.updateState stream data) o w).1 = .ok (data.apply state) := by
    simp [cascadeExec, Backend.exec_ok _ hfault, Backend.perform, Tables.updateState, h]
  rcases @cascadeExec_updateState H slot o w stream state data h with
    ⟨⟨error, herror⟩, -⟩ | happlied
  · cases hanswer.symm.trans herror
  · exact ⟨hanswer, happlied⟩

theorem cascadeExec_getLogs {query : LogQuery} {batch : LogBatch H}
    (h : (cascadeExec slot (.getLogs query) o w).1 = .ok batch) :
    batch.reachedBlock ≤ query.toBlock := by
  cases hfault : o.fault with
  | none =>
    simp only [cascadeExec, Backend.exec_ok _ hfault, Backend.perform, cascadeBackend] at h
    cases h
    exact Nat.min_le_right ..
  | some fault =>
    simp only [cascadeExec, Backend.exec_fault _ hfault] at h
    cases h

theorem cascadeExec_ext {call : CascadeCall β} :
    (cascadeExec slot (.ext call) o w).2.tables.states = w.tables.states ∧
      (((∃ error, (cascadeExec slot (.ext call) o w).1 = .error error) ∧
          (cascadeExec slot (.ext call) o w).2.base = w.base) ∨
        (cascadeExec slot (.ext call) o w).2.base = (cascadeBackend.ext call o w.base).2) := by
  have hnote (s : CascadeRows) (answer : Except Failure β) :
      s.note slot o.applied (.ext call : Call H CascadeCall β) answer = s := by
    cases slot <;> rfl
  simp only [cascadeExec, hnote]
  refine ⟨Backend.exec_states _ rfl, ?_⟩
  cases hfault : o.fault with
  | none =>
    rw [Backend.exec_ok _ hfault]
    exact .inr rfl
  | some fault =>
    rw [Backend.exec_fault _ hfault]
    cases fault.applied with
    | false => exact .inl ⟨⟨_, rfl⟩, rfl⟩
    | true => exact .inr rfl

end exec

end IndexerConfig

end Stunks.Indexer
