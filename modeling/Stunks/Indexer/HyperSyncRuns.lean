import Stunks.Indexer.Phases
import Stunks.Indexer.Sources.HyperSync
import Stunks.Lib.Concurrent

namespace Stunks.Indexer

open Database

inductive SourceEvent
  | answered (nextBlock : Option Nat)
  | checkpointed (toBlock : Nat)
  deriving DecidableEq

abbrev SourceHistory := List SourceEvent

namespace SourceHistory

def lastAnswer : SourceHistory → Option Nat
  | [] => none
  | .answered nextBlock :: _ => nextBlock
  | .checkpointed _ :: history => lastAnswer history

/-- No checkpoint passed a block that the response before it left out. -/
def covered : SourceHistory → Bool
  | [] => true
  | .answered _ :: history => covered history
  | .checkpointed toBlock :: history =>
    (lastAnswer history).all (fun nextBlock => toBlock < nextBlock) && covered history

end SourceHistory

structure SourceRun (W : Type) where
  world : World Hex W
  history : SourceHistory

structure HyperSyncBackend (P : Type → Type) (X W : Type) where
  backend : Backend Hex P X W
  reply : Answers X → W → HyperSyncRequest → HyperSyncReply

namespace HyperSyncBackend

variable {P : Type → Type} {X W β : Type} (B : HyperSyncBackend P X W)

def getLogs (query : LogQuery) (o : Answers X) (s : SourceRun W) :
    Except Failure (LogBatch Hex) × SourceRun W :=
  match o.fault with
  | some fault => (.error fault.failure, s)
  | none =>
    let post := B.reply o s.world.base
    let history := match post (HyperSyncLogSource.body query) with
      | .ok payload => .answered payload.nextBlock :: s.history
      | .refused _ _ => s.history
    (HyperSyncLogSource.getLogs post query, { s with history })

def note (applied : Bool) (history : SourceHistory) : Call Hex P β → SourceHistory
  | .updateState _ (.advance toBlock _) =>
    if applied then .checkpointed toBlock :: history else history
  | _ => history

def exec (call : Call Hex P β) (o : Answers X) (s : SourceRun W) :
    Except Failure β × SourceRun W :=
  match call with
  | .getLogs query => B.getLogs query o s
  | call =>
    let (answer, world) := B.backend.exec call o s.world
    (answer, { world, history := note o.applied s.history call })

def system (options : ScannerOptions Hex P) :
    System Unit (Call Hex P) Failure ScanTickResult (Answers X) (World Hex W) (SourceRun W) where
  exec _ _ := B.exec
  body _ := Scanner.tick options
  ready _ _ := true
  start _ s := s
  finish _ _ s := s
  env world s := { s with world }
  crash s := s

/-- A request for logs that is answered is answered by a response that advanced. -/
def callAdvances (call : Call Hex P β) (o : Answers X) (s : SourceRun W) : Bool :=
  match call with
  | .getLogs query => o.fault.isSome ||
    match B.reply o s.world.base (HyperSyncLogSource.body query) with
    | .ok payload => decide (HyperSyncLogSource.Advances query payload)
    | .refused _ _ => true
  | _ => true

def Plain : Call Hex P β → Prop
  | .getLogs _ => False
  | .updateState _ (.advance _ _) => False
  | _ => True

structure OwnCalls (options : ScannerOptions Hex P) : Prop where
  addresses : options.addresses.Only Plain
  maxBlock : ∀ maxBlock, options.maxBlock = some maxBlock → maxBlock.Only Plain
  process : ∀ logs range, (options.process logs range).Only Plain
  deleteAbove : ∀ blockNumber, (options.deleteAbove blockNumber).Only Plain

def Within (history : SourceHistory) (batch : LogBatch Hex) : Prop :=
  ∀ nextBlock, history.lastAnswer = some nextBlock → batch.reachedBlock < nextBlock

def holds (p : Phase Hex) (s : SourceRun W) : Prop :=
  s.history.covered = true ∧ match p with
  | .fetched _ batch => Within s.history batch
  | .hashed _ batch _ => Within s.history batch
  | .processed _ batch _ => Within s.history batch
  | _ => True

def protocol : Protocol (Call Hex P) Failure (Answers X) (SourceRun W) where
  exec := B.exec
  allow call o s := B.callAdvances call o s = true
  rely s t := t.history = s.history
  guar _ _ := True
  keep s := s.history.covered = true
  refl _ := rfl
  trans h h' := h'.trans h

variable {B} {o : Answers X} {s : SourceRun W}

theorem holds_of_history {p : Phase Hex} {t : SourceRun W} (heq : t.history = s.history)
    (h : holds p s) : holds p t := by
  unfold holds at h ⊢
  rwa [heq]

theorem kept (p : Phase Hex) : B.protocol.Kept (holds p) where
  stable h hrely := holds_of_history hrely h
  keep h := h.1

theorem exec_history {call : Call Hex P β} (h : Plain call) :
    (B.exec call o s).2.history = s.history := by
  cases call with
  | getLogs _ => exact h.elim
  | updateState _ data =>
    cases data with
    | advance _ _ => exact h.elim
    | _ => rfl
  | _ => rfl

theorem covered_exec {call : Call Hex P β} (hcall : Plain call) (h : s.history.covered = true) :
    (B.exec call o s).2.history.covered = true := by
  rwa [exec_history hcall]

theorem within_exec {call : Call Hex P β} {batch : LogBatch Hex} (hcall : Plain call)
    (h : Within s.history batch) : Within (B.exec call o s).2.history batch := by
  rwa [exec_history hcall]

theorem holds_fetch {query : LogQuery} {checkpoint : IndexerState Hex}
    (hok : B.callAdvances (.getLogs query) o s = true) (h : s.history.covered = true) :
    holds (Phase.after (Phase.afterFetch checkpoint) (B.exec (.getLogs query) o s).1)
      (B.exec (.getLogs query) o s).2 := by
  simp only [exec, getLogs]
  cases hfault : o.fault with
  | some fault => exact ⟨h, trivial⟩
  | none =>
    cases hreply : B.reply o s.world.base (HyperSyncLogSource.body query) with
    | refused status text =>
      simp only [HyperSyncLogSource.getLogs, hreply]
      exact ⟨h, trivial⟩
    | ok payload =>
      have hcovers : HyperSyncLogSource.Covers query payload := by
        rw [HyperSyncLogSource.covers_iff]
        simpa [callAdvances, hfault, hreply] using hok
      simp only [HyperSyncLogSource.getLogs, hreply]
      refine Phase.holds_afterFetch (K := (holds · _)) ⟨h, trivial⟩ fun batch hanswer _ => ?_
      cases hanswer
      exact ⟨h, fun nextBlock hnext => (hcovers nextBlock hnext).1⟩

theorem covered_advance {stream : IndexerStream} {batch : LogBatch Hex} {blockHash : Hex}
    (h : s.history.covered = true) (hwithin : Within s.history batch) :
    (B.exec (.updateState stream (.advance batch.reachedBlock blockHash)) o s).2.history.covered =
      true := by
  simp only [exec, note]
  split
  · rw [SourceHistory.covered, Bool.and_eq_true]
    exact ⟨(Option.all_eq_true ..).mpr fun nextBlock hnext => decide_eq_true (hwithin _ hnext), h⟩
  · exact h

theorem holds_step {options : ScannerOptions Hex P} {p : Phase Hex} {call : Call Hex P β}
    {next : Except Failure β → Phase Hex} (hc : Awaits options p call next) (h : holds p s)
    (hok : B.callAdvances call o s = true) :
    holds (next (B.exec call o s).1) (B.exec call o s).2 := by
  have hbare (hcall : Plain call) : (B.exec call o s).2.history.covered = true ∧ True :=
    ⟨covered_exec hcall h.1, trivial⟩
  cases hc with
  | load => exact Phase.holds_afterLoad (K := (holds · _)) (hbare trivial) fun _ _ => hbare trivial
  | check => exact Phase.holds_afterCheck (K := (holds · _)) (hbare trivial) fun _ _ => hbare trivial
  | look =>
    exact Phase.holds_afterLook (K := (holds · _)) (hbare trivial) (hbare trivial) (hbare trivial)
  | fetch => exact holds_fetch hok h.1
  | hash =>
    exact Phase.holds_after (K := (holds · _)) (hbare trivial)
      fun _ _ => ⟨covered_exec trivial h.1, within_exec trivial h.2⟩
  | reread =>
    exact Phase.holds_afterReread (K := (holds · _)) (hbare trivial)
      ⟨covered_exec trivial h.1, within_exec trivial h.2⟩
  | advance =>
    exact Phase.holds_after (K := (holds · _)) ⟨covered_advance h.1 h.2, trivial⟩
      fun _ _ => ⟨covered_advance h.1 h.2, trivial⟩
  | rewind => exact Phase.holds_after (K := (holds · _)) (hbare trivial) fun _ _ => hbare trivial
  | pull => exact Phase.holds_after (K := (holds · _)) (hbare trivial) fun _ _ => hbare trivial
  | head => exact Phase.holds_after (K := (holds · _)) (hbare trivial) fun _ _ => hbare trivial
  | resolve => exact Phase.holds_after (K := (holds · _)) (hbare trivial) fun _ _ => hbare trivial
  | recordError => exact hbare trivial
  | recordFailedBlock => exact hbare trivial

theorem holds_idle {p : Phase Hex} (h : holds p s) : holds .idle s := ⟨h.1, trivial⟩

theorem only_triple {α : Type} {program : Program Hex P α} (hp : program.Only Plain) {p : Phase Hex}
    {next : α → Phase Hex} (hnext : ∀ a (t : SourceRun W), holds p t → holds (next a) t) :
    B.protocol.Triple (holds p) program fun r => holds (Phase.after next r) := by
  refine (Protocol.Triple.only (kept p) hp fun call t o hcall ht _ =>
    ⟨trivial, holds_of_history (exec_history hcall) ht⟩).imp (fun _ h => h) fun r t ht => ?_
  exact Phase.holds_after (K := (holds · t)) (holds_idle ht) fun a _ => hnext a t ht

theorem tickRule {options : ScannerOptions Hex P} (hown : OwnCalls options) :
    TickRule B.protocol options holds fun _ => True where
  kept := kept
  step hc _ _ h hok := ⟨trivial, holds_step hc h hok⟩
  passes hpass h := by cases hpass <;> exact ⟨h.1, trivial⟩
  settled _ _ := trivial
  deleteAbove _ target := only_triple (hown.deleteAbove target) fun _ _ h => ⟨h.1, trivial⟩
  maxBlock _ maxBlock hmax := only_triple (hown.maxBlock maxBlock hmax) fun _ _ h => ⟨h.1, trivial⟩
  addresses _ _ := only_triple hown.addresses fun _ _ h => ⟨h.1, trivial⟩
  process _ _ _ := only_triple (hown.process _ _) fun _ _ h => h

variable {options : ScannerOptions Hex P}

abbrev SourceLabel (X W : Type) := System.Label Unit (Answers X) (World Hex W)

abbrev SourceConfig (P : Type → Type) (W : Type) :=
  System.Config Unit (Call Hex P) Failure ScanTickResult (SourceRun W)

variable (B) in
def stepAdvances (c : SourceConfig P W) : SourceLabel X W → Bool
  | .call _ o => c.pending () fun call => B.callAdvances call o c.world
  | _ => true

variable (B) in
abbrev SourceTrace (options : ScannerOptions Hex P) (w : World Hex W) :=
  (B.system options).Run (fun c l => B.stepAdvances c l = true) (.rest { world := w, history := [] })

def outline (hown : OwnCalls options) :
    (B.system options).Outline fun c l => B.stepAdvances c l = true where
  protocol _ := B.protocol
  idle _ := holds .idle
  post _ := TickRule.Outcome holds fun _ => True
  exec _ _ _ _ _ := rfl
  allow hok htask := by
    rw [stepAdvances, System.Config.pending_eq htask] at hok
    exact hok
  peer hne := absurd (Subsingleton.elim _ _) hne
  rest h hrely := holds_of_history hrely h
  start _ _ hidle := ⟨(tickRule hown).tick _ hidle,
    fun _ hne => absurd (Subsingleton.elim _ _) hne⟩
  finish h := ⟨h.1, fun _ hne => absurd (Subsingleton.elim _ _) hne⟩
  env _ _ := rfl
  crash _ h i := by
    obtain ⟨hnone, hsome⟩ := h i
    exact (em _).elim hnone fun htask => ⟨hsome htask, trivial⟩

theorem covered_run (hown : OwnCalls options) {w : World Hex W} {ls : List (SourceLabel X W)}
    {c : SourceConfig P W}
    (hrun : B.SourceTrace options w ls c) : c.world.history.covered = true := by
  have hinv := (outline hown).inv_run ((outline hown).inv_rest fun _ => ⟨rfl, trivial⟩) hrun
  exact (outline hown).keep_of_inv (i := ()) hinv fun _ hs => hs.1

/-- A batch covers what it says it reached exactly when the response advanced, and a scanner whose
responses all advance checkpoints no block that they left out. -/
theorem checkpoints_covered (hown : OwnCalls options) :
    (∀ query payload, HyperSyncLogSource.Covers query payload ↔
      HyperSyncLogSource.Advances query payload) ∧
      ∀ w ls c, B.SourceTrace options w ls c → c.world.history.covered = true :=
  ⟨HyperSyncLogSource.covers_iff, fun _ _ _ hrun => covered_run hown hrun⟩

end HyperSyncBackend

section sample

def emptyBackend : HyperSyncBackend (fun _ => Empty) HyperSyncReply Unit where
  backend :=
    { logs := fun _ _ _ => { logs := [], reachedBlock := 0 }
      blockHash := fun _ _ blockNumber => some blockNumber
      ext := fun call => nomatch call }
  reply o _ _ := o.ext

def curvesOnly : ScannerOptions Hex fun _ => Empty where
  stream := .curves
  startBlock := 5
  confirmationDepth := 1
  addresses := return [1]
  topics0 := none
  requireAddresses := false
  maxBlock := none
  process _ _ := return ()
  deleteAbove _ := return ()
  cascadeStreams := []

def emptyPage (nextBlock : Nat) : Answers HyperSyncReply where
  fault := none
  head := 20
  reached := 0
  ext := .ok { data := none, nextBlock := some nextBlock }

def pageTick (nextBlock : Nat) : List (HyperSyncBackend.SourceLabel HyperSyncReply Unit) :=
  .start () :: List.replicate 7 (.call () (emptyPage nextBlock))

def noRows : World Hex Unit := { tables := .empty, base := () }

theorem curvesOnly_ownCalls : HyperSyncBackend.OwnCalls curvesOnly where
  addresses := trivial
  maxBlock _ h := nomatch h
  process _ _ := trivial
  deleteAbove _ := trivial

/-- A response that got to block 9 moves the checkpoint there. -/
theorem checkpoints_covered_page : ∃ c, emptyBackend.SourceTrace curvesOnly noRows (pageTick 10) c ∧
    c.world.history = [.checkpointed 9, .answered (some 10)] ∧ c.world.history.covered = true := by
  obtain ⟨c, hrun, htest⟩ : ∃ c, emptyBackend.SourceTrace curvesOnly noRows (pageTick 10) c ∧
      decide (c.world.history = [.checkpointed 9, .answered (some 10)]) = true :=
    System.Run.exists_of_any (by decide)
  exact ⟨c, hrun, of_decide_eq_true htest,
    (HyperSyncBackend.checkpoints_covered curvesOnly_ownCalls).2 noRows _ c hrun⟩

/-- Asked for blocks 6 to 19, HyperSync answers that block 6 is not covered yet. -/
theorem stalled_page_skips :
    ¬HyperSyncLogSource.Covers { fromBlock := 6, toBlock := 19, addresses := [1] }
      { data := none, nextBlock := some 6 } ∧
      ∃ c, (emptyBackend.system curvesOnly).Run (fun _ _ => True)
        (.rest { world := noRows, history := [] }) (pageTick 6) c ∧
        c.world.history = [.checkpointed 19, .answered (some 6)] ∧
        c.world.history.covered = false := by
  constructor
  · rw [HyperSyncLogSource.covers_iff]
    decide
  · obtain ⟨c, hrun, htest⟩ : ∃ c, (emptyBackend.system curvesOnly).Run (fun _ _ => True)
        (.rest { world := noRows, history := [] }) (pageTick 6) c ∧
        decide (c.world.history = [.checkpointed 19, .answered (some 6)]) = true :=
      System.Run.exists_of_any (by decide)
    have hhistory := of_decide_eq_true htest
    exact ⟨c, hrun, hhistory, by rw [hhistory]; decide⟩

end sample

end Stunks.Indexer
