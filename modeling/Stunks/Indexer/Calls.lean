import Stunks.Database.Tables
import Stunks.Indexer.Sources.Types

namespace Stunks.Indexer

open Database

variable {H : Type} {P : Type → Type} {X W β : Type}

inductive Call (H : Type) (P : Type → Type) : Type → Type 1
  | upsertState (stream : IndexerStream) (startBlock : Nat) : Call H P (IndexerState H)
  | findState (stream : IndexerStream) : Call H P (Option (IndexerState H))
  | updateState (stream : IndexerStream) (data : StateUpdate H) : Call H P (IndexerState H)
  | upsertFailedBlock (stream : IndexerStream) (blockNumber : Nat) (error : String) : Call H P Unit
  | resolveFailedBlocks (stream : IndexerStream) (throughBlock : Nat) : Call H P Nat
  | head : Call H P Nat
  | getLogs (query : LogQuery) : Call H P (LogBatch H)
  | blockHash (blockNumber : Nat) : Call H P H
  | ext {α : Type} (call : P α) : Call H P α

def Call.isRequest : Call H P β → Bool
  | .head => true
  | .getLogs _ => true
  | .blockHash _ => true
  | _ => false

def Call.isOwn : Call H P β → Bool
  | .ext _ => true
  | _ => false

def Call.isLoad : Call H P β → Bool
  | .upsertState _ _ => true
  | _ => false

/-- A call that is rejected.  A write may have been applied all the same. -/
structure Fault where
  failure : Failure
  applied : Bool

structure Answers (X : Type) where
  fault : Option Fault
  head : Nat
  reached : Nat
  ext : X

def Answers.applied (o : Answers X) : Bool := o.fault.all Fault.applied

/-- The chain as the log source sees it, and a stream's own calls, over a state `W`. -/
structure Backend (H : Type) (P : Type → Type) (X W : Type) where
  logs : Answers X → W → LogQuery → LogBatch H
  blockHash : Answers X → W → Nat → Option H
  ext : {β : Type} → P β → Answers X → W → Except Failure β × W

structure World (H W : Type) where
  tables : Tables H
  base : W

def blockNotFound (blockNumber : Nat) : Failure :=
  .error none s!"Block at number \"{blockNumber}\" could not be found."

def Backend.perform (B : Backend H P X W) (o : Answers X) (w : World H W) :
    Call H P β → Except Failure β × World H W
  | .upsertState stream startBlock =>
    let (state, tables) := w.tables.upsertState stream startBlock
    (.ok state, { w with tables })
  | .findState stream => (.ok (w.tables.states stream), w)
  | .updateState stream data =>
    let (answer, tables) := w.tables.updateState stream data
    (answer, { w with tables })
  | .upsertFailedBlock stream blockNumber error =>
    (.ok (), { w with tables := w.tables.upsertFailedBlock stream blockNumber error })
  | .resolveFailedBlocks stream throughBlock =>
    let (count, tables) := w.tables.resolveFailedBlocks stream throughBlock
    (.ok count, { w with tables })
  | .head => (.ok o.head, w)
  | .getLogs query => (.ok (B.logs o w.base query), w)
  | .blockHash blockNumber =>
    match B.blockHash o w.base blockNumber with
    | some hash => (.ok hash, w)
    | none => (.error (blockNotFound blockNumber), w)
  | .ext call =>
    let (answer, base) := B.ext call o w.base
    (answer, { w with base })

def Backend.exec (B : Backend H P X W) (call : Call H P β) (o : Answers X) (w : World H W) :
    Except Failure β × World H W :=
  let (answer, w') := B.perform o w call
  match o.fault with
  | none => (answer, w')
  | some fault => (.error fault.failure, if fault.applied then w' else w)

theorem Backend.exec_ok (B : Backend H P X W) {call : Call H P β} {o : Answers X} {w : World H W}
    (h : o.fault = none) : B.exec call o w = B.perform o w call := by
  simp [exec, h]

theorem Backend.exec_fault (B : Backend H P X W) {call : Call H P β} {o : Answers X}
    {w : World H W} {fault : Fault} (h : o.fault = some fault) :
    B.exec call o w =
      (.error fault.failure, if fault.applied then (B.perform o w call).2 else w) := by
  simp [exec, h]

theorem Backend.perform_request (B : Backend H P X W) {call : Call H P β} (o : Answers X)
    (w : World H W) (h : call.isRequest = true) : (B.perform o w call).2 = w := by
  cases call with
  | head => rfl
  | getLogs _ => rfl
  | blockHash _ =>
    simp only [perform]
    split <;> rfl
  | _ => cases h

theorem Backend.exec_request (B : Backend H P X W) {call : Call H P β} {o : Answers X}
    {w : World H W} {fault : Fault} (h : o.fault = some fault) (hreq : call.isRequest = true) :
    B.exec call o w = (.error fault.failure, w) := by
  simp [B.exec_fault h, B.perform_request o w hreq]

theorem Backend.perform_base (B : Backend H P X W) {call : Call H P β} (o : Answers X)
    (w : World H W) (h : call.isOwn = false) : (B.perform o w call).2.base = w.base := by
  cases call with
  | ext _ => cases h
  | blockHash _ =>
    simp only [perform]
    split <;> rfl
  | _ => rfl

theorem Backend.exec_base (B : Backend H P X W) {call : Call H P β} {o : Answers X}
    {w : World H W} (h : call.isOwn = false) : (B.exec call o w).2.base = w.base := by
  cases hfault : o.fault with
  | none => rw [B.exec_ok hfault, B.perform_base o w h]
  | some fault =>
    rw [B.exec_fault hfault]
    split
    · exact B.perform_base o w h
    · rfl

def Call.isMove : Call H P β → Bool
  | .upsertState _ _ => true
  | .updateState _ _ => true
  | _ => false

theorem Backend.exec_states (B : Backend H P X W) {call : Call H P β} {o : Answers X}
    {w : World H W} (h : call.isMove = false) :
    (B.exec call o w).2.tables.states = w.tables.states := by
  have hperform : (B.perform o w call).2.tables.states = w.tables.states := by
    cases call with
    | upsertState _ _ => cases h
    | updateState _ _ => cases h
    | blockHash _ =>
      simp only [perform]
      split <;> rfl
    | _ => rfl
  cases hfault : o.fault with
  | none => rw [B.exec_ok hfault, hperform]
  | some fault =>
    rw [B.exec_fault hfault]
    split
    · exact hperform
    · rfl

theorem Backend.exec_ext (B : Backend H P X W) {call : P β} {o : Answers X} {w : World H W} :
    ((∃ error, (B.exec (.ext call) o w).1 = .error error) ∧ (B.exec (.ext call) o w).2.base = w.base) ∨
      (B.exec (.ext call) o w).2.base = (B.ext call o w.base).2 ∧
        ∀ a, (B.exec (.ext call) o w).1 = .ok a → (B.ext call o w.base).1 = .ok a := by
  cases hfault : o.fault with
  | none =>
    rw [B.exec_ok hfault]
    exact .inr ⟨rfl, fun _ h => h⟩
  | some fault =>
    rw [B.exec_fault hfault]
    cases fault.applied with
    | false => exact .inl ⟨⟨_, rfl⟩, rfl⟩
    | true => exact .inr ⟨rfl, fun _ h => by cases h⟩

section statements

variable (B : Backend H P X W) {o : Answers X} {w : World H W} {stream : IndexerStream}
  {state : IndexerState H}

theorem Backend.exec_findState :
    (B.exec (.findState stream) o w).2 = w ∧ ∀ current,
      (B.exec (.findState stream) o w).1 = .ok current → current = w.tables.states stream := by
  cases hfault : o.fault with
  | none =>
    rw [B.exec_ok hfault]
    exact ⟨rfl, by rintro _ ⟨⟩; rfl⟩
  | some fault =>
    rw [B.exec_fault hfault]
    exact ⟨ite_self _, nofun⟩

theorem Backend.exec_upsertState {startBlock : Nat} (h : w.tables.states stream = some state) :
    (B.exec (.upsertState stream startBlock) o w).2 = w ∧ ∀ answer,
      (B.exec (.upsertState stream startBlock) o w).1 = .ok answer → answer = state := by
  have hperform : B.perform o w (.upsertState stream startBlock) = (.ok state, w) := by
    simp [perform, Tables.upsertState, h]
  cases hfault : o.fault with
  | none =>
    rw [B.exec_ok hfault, hperform]
    exact ⟨rfl, by rintro _ ⟨⟩; rfl⟩
  | some fault =>
    rw [B.exec_fault hfault, hperform]
    exact ⟨ite_self _, nofun⟩

def freshState (H : Type) (startBlock : Nat) : IndexerState H :=
  { lastProcessedBlock := startBlock, lastProcessedBlockHash := none, lastError := none,
    isPaused := false }

theorem Backend.exec_upsertState_new {startBlock : Nat} (h : w.tables.states stream = none) :
    ((B.exec (.upsertState stream startBlock) o w).2 = w ∧
        ∀ answer, (B.exec (.upsertState stream startBlock) o w).1 ≠ .ok answer) ∨
      (B.exec (.upsertState stream startBlock) o w).2 =
          { w with tables := w.tables.setState stream (freshState H startBlock) } ∧
        ∀ answer, (B.exec (.upsertState stream startBlock) o w).1 = .ok answer →
          answer = freshState H startBlock := by
  have hperform : B.perform o w (.upsertState stream startBlock) = (.ok (freshState H startBlock),
      { w with tables := w.tables.setState stream (freshState H startBlock) }) := by
    simp [perform, Tables.upsertState, h, freshState]
  cases hfault : o.fault with
  | none =>
    rw [B.exec_ok hfault, hperform]
    exact .inr ⟨rfl, by rintro _ ⟨⟩; rfl⟩
  | some fault =>
    rw [B.exec_fault hfault, hperform]
    cases fault.applied with
    | false => exact .inl ⟨rfl, nofun⟩
    | true => exact .inr ⟨rfl, nofun⟩

theorem Backend.exec_updateState {data : StateUpdate H} (h : w.tables.states stream = some state) :
    (B.exec (.updateState stream data) o w).2 =
      if o.applied then { w with tables := w.tables.setState stream (data.apply state) } else w := by
  have hperform : (B.perform o w (.updateState stream data)).2 =
      { w with tables := w.tables.setState stream (data.apply state) } := by
    simp [perform, Tables.updateState, h]
  cases hfault : o.fault with
  | none => simp [B.exec_ok hfault, hperform, Answers.applied, hfault]
  | some fault => simp [B.exec_fault hfault, hperform, Answers.applied, hfault]

theorem Backend.exec_updateState_none {data : StateUpdate H} (h : w.tables.states stream = none) :
    (B.exec (.updateState stream data) o w).2 = w := by
  have hperform : (B.perform o w (.updateState stream data)).2 = w := by
    simp [perform, Tables.updateState, h]
  cases hfault : o.fault with
  | none => rw [B.exec_ok hfault, hperform]
  | some fault => rw [B.exec_fault hfault, hperform, ite_self]

end statements

end Stunks.Indexer
