import Mathlib.Data.Nat.Notation

/-! `reorg.ts`: reorg detection. -/

namespace Stunks.Indexer

def defaultConfirmationDepth : Nat := 12

variable {H : Type} [DecidableEq H]

structure ReorgCheckInput (H : Type) where
  recordedHash : Option H
  recordedBlock : Nat
  currentHash : H

inductive ReorgVerdict (H : Type)
  | ok
  | unverifiable (reason : String)
  | reorg (rollbackTo : Nat) (recordedHash currentHash : H)
  deriving DecidableEq

/-- Rewind past the divergence, not just to it. -/
def rewindTarget (recordedBlock depth : Nat) : Nat :=
  if recordedBlock > depth then recordedBlock - depth else 0

def checkForReorg (input : ReorgCheckInput H) (rollbackDepth : Nat := defaultConfirmationDepth) :
    ReorgVerdict H :=
  match input.recordedHash with
  | none => .unverifiable "no recorded block hash to compare against"
  | some recordedHash =>
    if recordedHash = input.currentHash then .ok
    else .reorg (rewindTarget input.recordedBlock rollbackDepth) recordedHash input.currentHash

def safeHead (chainHead : Nat) (confirmationDepth : Nat := defaultConfirmationDepth) : Option Nat :=
  if chainHead ≤ confirmationDepth then none else some (chainHead - confirmationDepth)

theorem rewindTarget_eq (recordedBlock depth : Nat) :
    rewindTarget recordedBlock depth = recordedBlock - depth := by
  unfold rewindTarget
  split <;> omega

theorem checkForReorg_reorg {input : ReorgCheckInput H} {depth target : Nat} {recorded current : H}
    (h : checkForReorg input depth = .reorg target recorded current) :
    input.recordedHash = some recorded ∧ recorded ≠ current ∧ input.currentHash = current ∧
      target = input.recordedBlock - depth := by
  unfold checkForReorg at h
  split at h
  · cases h
  · rename_i recordedHash hrecorded
    split at h
    · cases h
    · rename_i hne
      cases h
      exact ⟨hrecorded, hne, rfl, rewindTarget_eq ..⟩

end Stunks.Indexer
