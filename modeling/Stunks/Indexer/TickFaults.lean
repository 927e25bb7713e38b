import Stunks.Indexer.Scanner

/-! `scanner.ts`: what a tick leaves behind when some of its calls fail.

The functions of a stream are calls too, so that each of them can fail, and do whatever it does to
the stream's own tables.  Every call that is made is written down, with its answer. -/

namespace Stunks.Indexer

open Database

variable {H X W α β : Type} {P : Type → Type}

inductive SetupCall (H : Type) : Type → Type
  | addresses : SetupCall H (List Address)
  | maxBlock : SetupCall H (Option Nat)
  | process (logs : List (RawLog H)) (range : Nat × Nat) : SetupCall H Unit
  | deleteAbove (toBlock : Nat) : SetupCall H Unit

structure StreamSetup where
  stream : IndexerStream
  startBlock : Nat
  confirmationDepth : Nat
  topics0 : Option (List Hex)
  requireAddresses : Bool
  capped : Bool
  cascadeStreams : List IndexerStream

def StreamSetup.options (cfg : StreamSetup) : ScannerOptions H (SetupCall H) :=
  { cfg with
    addresses := Async.await (.ext .addresses)
    maxBlock := if cfg.capped then some (Async.await (.ext .maxBlock)) else none
    process := fun logs range => Async.await (.ext (.process logs range))
    deleteAbove := fun toBlock => Async.await (.ext (.deleteAbove toBlock)) }

structure CallMade (H X : Type) where
  {β : Type}
  call : Call H (SetupCall H) β
  outcome : Answers X
  answer : Except Failure β

def Call.moves (stream : IndexerStream) : Call H P β → Bool
  | .updateState other data => other = stream && data.toBlock.isSome
  | _ => false

namespace CallMade

/-- The checkpoint was moved, even if the write was rejected. -/
def Moves (stream : IndexerStream) (made : CallMade H X) : Prop :=
  made.call.moves stream = true ∧ made.outcome.applied = true

def Fails (made : CallMade H X) : Prop := ∃ failure, made.answer = .error failure

def BlamesBlock (made : CallMade H X) : Prop :=
  ∃ logs range outcome failure, isDatabaseAvailabilityError failure = false ∧
    made = { call := .ext (.process logs range), outcome, answer := .error failure }

def Fetches (batch : LogBatch H) (made : CallMade H X) : Prop :=
  ∃ query outcome, made = { call := .getLogs query, outcome, answer := .ok batch }

def ReadsHash (blockNumber : Nat) (hash : H) (made : CallMade H X) : Prop :=
  ∃ outcome, made = { call := .blockHash blockNumber, outcome, answer := .ok hash }

def NeedsOfSetup (before : List (CallMade H X)) : {β : Type} → SetupCall H β → Prop
  | _, .process logs range => ∃ batch hash, batch.logs = logs ∧ batch.reachedBlock = range.2 ∧
      (∃ earlier ∈ before, earlier.Fetches batch) ∧
        ∃ earlier ∈ before, earlier.ReadsHash batch.reachedBlock hash
  | _, _ => True

def NeedsOf (before : List (CallMade H X)) : {β : Type} → Call H (SetupCall H) β → Prop
  | _, .upsertFailedBlock _ _ _ => ∃ earlier ∈ before, earlier.BlamesBlock
  | _, .ext call => NeedsOfSetup before call
  | _, _ => True

end CallMade

/-- No call fails from the one on that moves the checkpoint. -/
def FailsOnceMoved (stream : IndexerStream) (made : List (CallMade H X)) : Prop :=
  ∃ before move after, made = before ++ move :: after ∧ move.Moves stream ∧
    ∃ failed ∈ move :: after, failed.Fails

/-- A failed block is only recorded after `process` blamed it, and `process` is only called with a
batch of the source when the hash of the reached block is known. -/
def Justified (made : List (CallMade H X)) : Prop :=
  ∀ before call after, made = before ++ call :: after → CallMade.NeedsOf before call.call

section history

variable {stream : IndexerStream} {made : List (CallMade H X)} {last : CallMade H X}

theorem FailsOnceMoved.append (h : FailsOnceMoved stream made) :
    FailsOnceMoved stream (made ++ [last]) := by
  obtain ⟨before, move, after, rfl, hmove, failed, hmem, hfails⟩ := h
  refine ⟨before, move, after ++ [last], by simp, hmove, failed, ?_, hfails⟩
  rw [← List.cons_append]
  exact List.mem_append_left _ hmem

theorem failsOnceMoved_of_moved (h : ∃ move ∈ made, move.Moves stream) (hlast : last.Fails) :
    FailsOnceMoved stream (made ++ [last]) := by
  obtain ⟨move, hmem, hmove⟩ := h
  obtain ⟨before, after, rfl⟩ := List.append_of_mem hmem
  exact ⟨before, move, after ++ [last], by simp, hmove, last, by simp, hlast⟩

theorem failsOnceMoved_of_self (hmove : last.Moves stream) (hlast : last.Fails) :
    FailsOnceMoved stream (made ++ [last]) :=
  ⟨made, last, [], rfl, hmove, last, List.mem_cons_self, hlast⟩

theorem not_failsOnceMoved_append (h : ¬FailsOnceMoved stream made)
    (hlast : ¬last.Fails ∨ (¬last.Moves stream ∧ ∀ move ∈ made, ¬move.Moves stream)) :
    ¬FailsOnceMoved stream (made ++ [last]) := by
  rintro ⟨before, move, after, heq, hmove, failed, hmem, hfails⟩
  rcases List.eq_nil_or_concat after with rfl | ⟨init, final, rfl⟩
  · obtain ⟨rfl, hsame⟩ := List.append_inj' heq rfl
    obtain rfl := (List.cons.inj hsame).1
    obtain rfl := List.mem_singleton.mp hmem
    exact hlast.elim (fun h => h hfails) fun h => h.1 hmove
  · rw [List.concat_eq_append, ← List.cons_append, ← List.append_assoc] at heq
    obtain ⟨rfl, hsame⟩ := List.append_inj' heq rfl
    obtain rfl := (List.cons.inj hsame).1
    rcases hlast with hlast | ⟨-, hnone⟩
    · rw [List.concat_eq_append, ← List.cons_append, List.mem_append] at hmem
      rcases hmem with hmem | hmem
      · exact h ⟨before, move, init, rfl, hmove, failed, hmem, hfails⟩
      · exact hlast (List.mem_singleton.mp hmem ▸ hfails)
    · exact hnone move (by simp) hmove

theorem not_failsOnceMoved_of_unfailed (h : ∀ call ∈ made, ¬call.Fails) :
    ¬FailsOnceMoved stream made := by
  rintro ⟨before, move, after, rfl, -, failed, hmem, hfails⟩
  exact h failed (List.mem_append_right _ hmem) hfails

theorem not_failsOnceMoved_of_unmoved (h : ∀ move ∈ made, ¬move.Moves stream) :
    ¬FailsOnceMoved stream made := by
  rintro ⟨before, move, after, rfl, hmove, -⟩
  exact h move (by simp) hmove

theorem Justified.append (h : Justified made) (hlast : CallMade.NeedsOf made last.call) :
    Justified (made ++ [last]) := by
  intro before call after heq
  rcases List.eq_nil_or_concat after with rfl | ⟨init, final, rfl⟩
  · obtain ⟨rfl, hsame⟩ := List.append_inj' heq rfl
    obtain rfl := (List.cons.inj hsame).1
    exact hlast
  · rw [List.concat_eq_append, ← List.cons_append, ← List.append_assoc] at heq
    obtain ⟨rfl, -⟩ := List.append_inj' heq rfl
    exact h before call init rfl

end history

def StreamSetup.checkpoint (cfg : StreamSetup) (w : World H W) : Nat × Option H :=
  let state := (w.tables.states cfg.stream).getD (freshState H cfg.startBlock)
  (state.lastProcessedBlock, state.lastProcessedBlockHash)

abbrev TickState (H X W : Type) := World H W × List (CallMade H X)

def recording (B : Backend H (SetupCall H) X W) :
    Protocol (Call H (SetupCall H)) Failure (Answers X) (TickState H X W) where
  exec call outcome s :=
    let (answer, w) := B.exec call outcome s.1
    (answer, (w, s.2 ++ [{ call, outcome, answer }]))
  allow _ _ _ := True
  rely := (· = ·)
  guar _ _ := True
  keep _ := True
  refl _ := rfl
  trans := .trans

def StandsAt (cfg : StreamSetup) (c : Nat × Option H) (w : World H W) : Prop :=
  ∃ state, w.tables.states cfg.stream = some state ∧
    (state.lastProcessedBlock, state.lastProcessedBlockHash) = c

variable (cfg : StreamSetup) (base c : Nat × Option H)

structure Loaded (s : TickState H X W) : Prop where
  row : StandsAt cfg base s.1
  unmoved : ∀ made ∈ s.2, ¬made.Moves cfg.stream
  justified : Justified s.2

structure Moved (s : TickState H X W) : Prop where
  row : StandsAt cfg c s.1
  ne : c ≠ base
  moved : ∃ made ∈ s.2, made.Moves cfg.stream
  sound : ¬FailsOnceMoved cfg.stream s.2
  justified : Justified s.2

structure Lost (s : TickState H X W) : Prop where
  row : ∃ c, c ≠ base ∧ StandsAt cfg c s.1
  failed : FailsOnceMoved cfg.stream s.2
  justified : Justified s.2

def Stopped (s : TickState H X W) : Prop := Loaded cfg base s ∨ Lost cfg base s

def afterMove (r : Except Failure α) (s : TickState H X W) : Prop :=
  match r with
  | .ok _ => Moved cfg base c s
  | .error _ => Stopped cfg base s

variable {cfg base c}

theorem StandsAt.checkpoint {w : World H W} (h : StandsAt cfg c w) : cfg.checkpoint w = c := by
  obtain ⟨state, hstate, rfl⟩ := h
  simp [StreamSetup.checkpoint, hstate]

section exec

variable {B : Backend H P X W} {o : Answers X} {w : World H W}

theorem StandsAt.move {data : StateUpdate H} (h : StandsAt cfg base w)
    (hdata : ∀ state, ((data.apply state).lastProcessedBlock,
      (data.apply state).lastProcessedBlockHash) = c) :
    if o.applied then StandsAt cfg c (B.exec (.updateState cfg.stream data) o w).2
    else StandsAt cfg base (B.exec (.updateState cfg.stream data) o w).2 := by
  obtain ⟨state, hstate, hbase⟩ := h
  rw [B.exec_updateState hstate]
  split
  · exact ⟨_, Tables.setState_states_self .., hdata state⟩
  · exact ⟨state, hstate, hbase⟩

theorem StandsAt.move_any {stream : IndexerStream} {data : StateUpdate H} (h : StandsAt cfg c w)
    (hdata : ∀ state, ((data.apply state).lastProcessedBlock,
      (data.apply state).lastProcessedBlockHash) = c) :
    StandsAt cfg c (B.exec (.updateState stream data) o w).2 := by
  by_cases hstream : stream = cfg.stream
  · subst hstream
    have hmove := h.move (B := B) (o := o) hdata
    split at hmove <;> exact hmove
  · obtain ⟨state, hstate, hc⟩ := h
    cases hrow : w.tables.states stream with
    | none => rw [B.exec_updateState_none hrow]; exact ⟨state, hstate, hc⟩
    | some row =>
      rw [B.exec_updateState hrow]
      split
      · exact ⟨state, (Tables.setState_states_ne _ _ (Ne.symm hstream)).trans hstate, hc⟩
      · exact ⟨state, hstate, hc⟩

theorem StandsAt.exec {call : Call H P β} (h : StandsAt cfg c w) (hload : call.isLoad = false)
    (hmoves : call.moves cfg.stream = false) : StandsAt cfg c (B.exec call o w).2 := by
  obtain ⟨state, hstate, hc⟩ := h
  cases call with
  | upsertState _ _ => cases hload
  | updateState other data =>
    cases hrow : w.tables.states other with
    | none => rw [B.exec_updateState_none hrow]; exact ⟨state, hstate, hc⟩
    | some row =>
      rw [B.exec_updateState hrow]
      split
      · by_cases hother : other = cfg.stream
        · subst hother
          obtain rfl := Option.some.inj (hrow.symm.trans hstate)
          refine ⟨data.apply row, Tables.setState_states_self .., ?_⟩
          cases data with
          | recordError _ => exact hc
          | _ => simp [Call.moves, StateUpdate.toBlock] at hmoves
        · exact ⟨state, (Tables.setState_states_ne _ _ (Ne.symm hother)).trans hstate, hc⟩
      · exact ⟨state, hstate, hc⟩
  | _ => exact ⟨state, by rw [B.exec_states rfl]; exact hstate, hc⟩

theorem Backend.exec_load (B : Backend H P X W) (cfg : StreamSetup) (o : Answers X)
    (w : World H W) :
    cfg.checkpoint (B.exec (.upsertState cfg.stream cfg.startBlock) o w).2 = cfg.checkpoint w ∧
      ∀ state, (B.exec (.upsertState cfg.stream cfg.startBlock) o w).1 = .ok state →
        (state.lastProcessedBlock, state.lastProcessedBlockHash) = cfg.checkpoint w ∧
          StandsAt cfg (cfg.checkpoint w)
            (B.exec (.upsertState cfg.stream cfg.startBlock) o w).2 := by
  cases hrow : w.tables.states cfg.stream with
  | some state =>
    have hstands : StandsAt cfg (state.lastProcessedBlock, state.lastProcessedBlockHash) w :=
      ⟨state, hrow, rfl⟩
    have hload : (B.exec (.upsertState cfg.stream cfg.startBlock) o w).2 = w ∧ ∀ answer,
        (B.exec (.upsertState cfg.stream cfg.startBlock) o w).1 = .ok answer → answer = state :=
      B.exec_upsertState hrow
    obtain ⟨hw, hanswer⟩ := hload
    rw [hw, hstands.checkpoint]
    refine ⟨rfl, fun answer h => ?_⟩
    obtain rfl := hanswer answer h
    exact ⟨rfl, hstands⟩
  | none =>
    have hbase : cfg.checkpoint w = (cfg.startBlock, none) := by
      simp [StreamSetup.checkpoint, hrow, freshState]
    rw [hbase]
    have hload := @Backend.exec_upsertState_new H P X W B o w cfg.stream cfg.startBlock hrow
    rcases hload with ⟨hw, hanswer⟩ | ⟨hw, hanswer⟩
    · rw [hw]
      exact ⟨hbase, fun answer h => absurd h (hanswer answer)⟩
    · have hstands : StandsAt cfg (cfg.startBlock, none)
          { w with tables := w.tables.setState cfg.stream (freshState H cfg.startBlock) } :=
        ⟨_, Tables.setState_states_self .., rfl⟩
      rw [hw]
      refine ⟨hstands.checkpoint, fun answer h => ?_⟩
      obtain rfl := hanswer answer h
      exact ⟨rfl, hstands⟩

end exec

section steps

variable {B : Backend H (SetupCall H) X W} {F : List (CallMade H X) → Prop}

theorem keptAll (P : TickState H X W → Prop) : (recording B).Kept P :=
  ⟨fun h hst => hst ▸ h, fun _ => trivial⟩

def Lasts (F : List (CallMade H X) → Prop) : Prop := ∀ made last, F made → F (made ++ [last])

theorem lasts_has (G : CallMade H X → Prop) : Lasts fun made => ∃ earlier ∈ made, G earlier :=
  fun _ _ ⟨earlier, hmem, hearlier⟩ => ⟨earlier, List.mem_append_left _ hmem, hearlier⟩

theorem lasts_true : Lasts fun _ : List (CallMade H X) => True := fun _ _ h => h

theorem Lasts.and {F G : List (CallMade H X) → Prop} (hF : Lasts F) (hG : Lasts G) :
    Lasts fun made => F made ∧ G made :=
  fun made last h => ⟨hF made last h.1, hG made last h.2⟩

theorem await_loaded (hF : Lasts F) (call : Call H (SetupCall H) β) (hload : call.isLoad = false)
    (hmoves : call.moves cfg.stream = false)
    (hneeds : ∀ made, F made → CallMade.NeedsOf made call) :
    (recording B).Triple (fun s => Loaded cfg base s ∧ F s.2) (Async.await call) fun r s =>
      (Loaded cfg base s ∧ F s.2) ∧ ∃ outcome, { call, outcome, answer := r } ∈ s.2 := by
  refine .await (keptAll _) (fun _ => keptAll _) fun s o ⟨hs, hFs⟩ _ => ⟨trivial, ?_⟩
  refine ⟨⟨⟨hs.row.exec hload hmoves, ?_, hs.justified.append (hneeds _ hFs)⟩, hF _ _ hFs⟩, o, ?_⟩
  · refine List.forall_mem_append.mpr ⟨hs.unmoved, List.forall_mem_singleton.mpr fun hmove => ?_⟩
    exact absurd (hmove.1.symm.trans hmoves) (by decide)
  · exact List.mem_append_right _ List.mem_cons_self

theorem await_quiet (call : Call H (SetupCall H) β) (hload : call.isLoad = false)
    (hmoves : call.moves cfg.stream = false)
    (hneeds : ∀ made : List (CallMade H X), CallMade.NeedsOf made call) :
    (recording B).Triple (Loaded cfg base) (Async.await call) fun r s =>
      Loaded cfg base s ∧ ∃ outcome, { call, outcome, answer := r } ∈ s.2 :=
  (await_loaded lasts_true call hload hmoves fun made _ => hneeds made).imp
    (fun _ hs => ⟨hs, trivial⟩) fun _ _ hs => ⟨hs.1.1, hs.2⟩

theorem Lost.step {call : Call H (SetupCall H) β} {s : TickState H X W} {o : Answers X}
    (h : Lost cfg base s) (hload : call.isLoad = false) (hmoves : call.moves cfg.stream = false)
    (hneeds : CallMade.NeedsOf s.2 call) : Lost cfg base ((recording B).exec call o s).2 := by
  obtain ⟨c, hne, hrow⟩ := h.row
  exact ⟨⟨c, hne, hrow.exec hload hmoves⟩, h.failed.append, h.justified.append hneeds⟩

theorem await_stopped {call : Call H (SetupCall H) β} (hload : call.isLoad = false)
    (hmoves : call.moves cfg.stream = false)
    (hneeds : ∀ made : List (CallMade H X), CallMade.NeedsOf made call) :
    (recording B).Triple (Stopped cfg base) (Async.await call) fun _ => Stopped cfg base := by
  rintro s (hs | hs)
  · exact (await_quiet call hload hmoves hneeds s hs).imp fun _ _ h => .inl h.1
  · exact Protocol.Triple.await (keptAll (Lost cfg base)) (fun _ => keptAll _)
      (fun t o ht _ => ⟨trivial, .inr (ht.step hload hmoves (hneeds _))⟩) s hs

theorem await_move (hF : Lasts F) {data : StateUpdate H} (hblock : data.toBlock.isSome = true)
    (hdata : ∀ state, ((data.apply state).lastProcessedBlock,
      (data.apply state).lastProcessedBlockHash) = c) (hne : c ≠ base) :
    (recording B).Triple (fun s => Loaded cfg base s ∧ F s.2)
      (Async.await (.updateState cfg.stream data)) fun r s => afterMove cfg base c r s ∧ F s.2 := by
  refine .await (keptAll _) (fun _ => keptAll _) fun s o ⟨hs, hFs⟩ _ => ⟨trivial, ?_, hF _ _ hFs⟩
  have hrow := hs.row.move (B := B) (o := o) hdata
  have hmoves : (Call.updateState cfg.stream data : Call H (SetupCall H) _).moves cfg.stream =
      true := by
    simp [Call.moves, hblock]
  cases hfault : o.fault with
  | none =>
    have happlied : o.applied = true := by simp [Answers.applied, hfault]
    rw [happlied, if_pos rfl] at hrow
    obtain ⟨state, hstate, -⟩ := hs.row
    have hanswer : (B.exec (.updateState cfg.stream data) o s.1).1 = .ok (data.apply state) := by
      simp [B.exec_ok hfault, Backend.perform, Tables.updateState, hstate]
    change afterMove cfg base c (B.exec (.updateState cfg.stream data) o s.1).1 _
    rw [hanswer]
    refine ⟨hrow, hne, ⟨_, List.mem_append_right _ List.mem_cons_self, hmoves, happlied⟩, ?_,
      hs.justified.append trivial⟩
    refine not_failsOnceMoved_append (not_failsOnceMoved_of_unmoved hs.unmoved) (.inl ?_)
    rintro ⟨failure, hfailure⟩
    cases hanswer.symm.trans hfailure
  | some fault =>
    have hanswer : (B.exec (.updateState cfg.stream data) o s.1).1 = .error fault.failure := by
      rw [B.exec_fault hfault]
    change afterMove cfg base c (B.exec (.updateState cfg.stream data) o s.1).1 _
    rw [hanswer]
    cases happlied : o.applied with
    | true =>
      rw [happlied, if_pos rfl] at hrow
      exact .inr ⟨⟨c, hne, hrow⟩, failsOnceMoved_of_self ⟨hmoves, happlied⟩ ⟨_, hanswer⟩,
        hs.justified.append trivial⟩
    | false =>
      rw [happlied, if_neg Bool.false_ne_true] at hrow
      refine .inl ⟨hrow, List.forall_mem_append.mpr ⟨hs.unmoved,
        List.forall_mem_singleton.mpr fun hmove => ?_⟩, hs.justified.append trivial⟩
      exact absurd (hmove.2.symm.trans happlied) (by decide)

theorem await_moved (hF : Lasts F) {call : Call H (SetupCall H) β}
    (hrow : ∀ (o : Answers X) w, StandsAt cfg c w → StandsAt cfg c (B.exec call o w).2)
    (hneeds : ∀ made : List (CallMade H X), CallMade.NeedsOf made call) :
    (recording B).Triple (fun s => Moved cfg base c s ∧ F s.2) (Async.await call) fun r s =>
      afterMove cfg base c r s ∧ F s.2 := by
  refine .await (keptAll _) (fun _ => keptAll _) fun s o ⟨hs, hFs⟩ _ => ⟨trivial, ?_, hF _ _ hFs⟩
  have hneeded := hneeds s.2
  obtain ⟨earlier, hmem, hmove⟩ := hs.moved
  cases hanswer : (B.exec call o s.1).1 with
  | ok a =>
    change afterMove cfg base c (B.exec call o s.1).1 _
    rw [hanswer]
    refine ⟨hrow o _ hs.row, hs.ne, ⟨earlier, List.mem_append_left _ hmem, hmove⟩, ?_,
      hs.justified.append hneeded⟩
    refine not_failsOnceMoved_append hs.sound (.inl ?_)
    rintro ⟨failure, hfailure⟩
    cases hanswer.symm.trans hfailure
  | error failure =>
    change afterMove cfg base c (B.exec call o s.1).1 _
    rw [hanswer]
    exact .inr ⟨⟨c, hs.ne, hrow o _ hs.row⟩,
      failsOnceMoved_of_moved ⟨earlier, hmem, hmove⟩ ⟨failure, hanswer⟩,
      hs.justified.append hneeded⟩

theorem await_after {call : Call H (SetupCall H) β}
    (hrow : ∀ (o : Answers X) w, StandsAt cfg c w → StandsAt cfg c (B.exec call o w).2)
    (hneeds : ∀ made : List (CallMade H X), CallMade.NeedsOf made call) :
    (recording B).Triple (Moved cfg base c) (Async.await call) (afterMove cfg base c) :=
  (await_moved lasts_true hrow hneeds).imp (fun _ hs => ⟨hs, trivial⟩) fun _ _ hs => hs.1

theorem recordError_stopped {error : String} :
    (recording B).Triple (Stopped cfg base) (Checkpoints.recordError cfg.stream error) fun _ =>
      Stopped cfg base :=
  .bind (await_stopped rfl (by simp [Call.moves, StateUpdate.toBlock]) fun _ => trivial)
    (fun _ => .done (keptAll _) fun _ hs => hs) fun _ _ hs => hs

end steps

def Stands : Except Failure ScanTickResult → Prop
  | .error _ => True
  | .ok result => result.reorged = false ∧ result.scanned = 0

def Reaches (cfg : StreamSetup) (base : Nat × Option H) (result : ScanTickResult)
    (s : TickState H X W) : Prop :=
  ∃ batch hash, (∃ made ∈ s.2, made.Fetches batch) ∧
    (∃ made ∈ s.2, made.ReadsHash batch.reachedBlock hash) ∧
    cfg.checkpoint s.1 = (batch.reachedBlock, some hash) ∧ result.fromBlock = base.1 + 1 ∧
    result.toBlock = batch.reachedBlock ∧ result.scanned = batch.reachedBlock - base.1

/-- What a tick promises, whichever of its calls fail. -/
structure Promised (cfg : StreamSetup) (base : Nat × Option H)
    (r : Except Failure ScanTickResult) (s : TickState H X W) : Prop where
  justified : Justified s.2
  stands : Stands r → cfg.checkpoint s.1 = base
  reaches : ∀ result, r = .ok result → 0 < result.scanned → Reaches cfg base result s

structure TickPost (cfg : StreamSetup) (base : Nat × Option H)
    (r : Except Failure ScanTickResult) (s : TickState H X W) : Prop where
  justified : Justified s.2
  stands : (Stands r → cfg.checkpoint s.1 = base) ↔ ¬FailsOnceMoved cfg.stream s.2
  reaches : ∀ result, r = .ok result → 0 < result.scanned → Reaches cfg base result s

theorem not_reaches_of_stands {r : Except Failure ScanTickResult} {s : TickState H X W}
    (hr : Stands r) : ∀ result, r = .ok result → 0 < result.scanned → Reaches cfg base result s := by
  rintro result rfl hscanned
  exact absurd hr.2 (Nat.ne_of_gt hscanned)

theorem TickPost.of_unmoved {r : Except Failure ScanTickResult} {s : TickState H X W}
    (hrow : cfg.checkpoint s.1 = base) (hunmoved : ∀ made ∈ s.2, ¬made.Moves cfg.stream)
    (hjustified : Justified s.2) (hr : Stands r) : TickPost cfg base r s where
  justified := hjustified
  stands := ⟨fun _ => not_failsOnceMoved_of_unmoved hunmoved, fun _ _ => hrow⟩
  reaches := not_reaches_of_stands hr

theorem Stopped.post {r : Except Failure ScanTickResult} {s : TickState H X W}
    (h : Stopped cfg base s) (hr : Stands r) : TickPost cfg base r s := by
  rcases h with h | h
  · exact .of_unmoved h.row.checkpoint h.unmoved h.justified hr
  · obtain ⟨c, hne, hrow⟩ := h.row
    refine ⟨h.justified, ⟨fun hstands => ?_, fun hsound => absurd h.failed hsound⟩,
      not_reaches_of_stands hr⟩
    exact absurd (hrow.checkpoint.symm.trans (hstands hr)) hne

theorem Moved.post {r : Except Failure ScanTickResult} {s : TickState H X W}
    (h : Moved cfg base c s) (hr : ¬Stands r)
    (hreaches : ∀ result, r = .ok result → 0 < result.scanned → Reaches cfg base result s) :
    TickPost cfg base r s :=
  ⟨h.justified, ⟨fun _ => h.sound, fun _ hstands => absurd hstands hr⟩, hreaches⟩

section stages

variable {B : Backend H (SetupCall H) X W} {F : List (CallMade H X) → Prop}

theorem stops {r : Except Failure ScanTickResult} (hr : Stands r) :
    (recording B).Triple (Stopped cfg base) (.done r) (TickPost cfg base) :=
  .done (keptAll _) fun _ hs => hs.post hr

theorem handleSourceFailure_post {fromBlock lastProcessedBlock : Nat} {error : Failure} :
    (recording B).Triple (Stopped cfg base)
      (Scanner.handleSourceFailure cfg.options fromBlock lastProcessedBlock error)
      (TickPost cfg base) :=
  .bind recordError_stopped (fun _ => stops ⟨rfl, rfl⟩) fun _ _ hs => hs.post trivial

/-- A dependent is pulled to the same block, so that it may be the stream itself. -/
theorem cascade_moved {target : Nat} (reason : String) (rest : List IndexerStream) :
    (recording B).Triple (Moved cfg base (target, none))
      (Scanner.cascade cfg.options target reason rest) fun r =>
        afterMove cfg base (target, none) r := by
  induction rest with
  | nil => exact .done (keptAll _) fun _ hs => hs
  | cons dependent rest ih =>
    refine .bind (Q := afterMove cfg base (target, none)) ?_ (fun _ => ih) fun _ _ hs => hs
    refine .bind (await_after (fun o w hw => hw.exec rfl rfl) fun _ => trivial) (fun current => ?_)
      fun _ _ hs => hs
    cases current with
    | none => exact .done (keptAll _) fun _ hs => hs
    | some state =>
      dsimp only
      split
      · exact .done (keptAll _) fun _ hs => hs
      · exact .bind (await_after (fun o w hw => hw.move_any fun _ => rfl) fun _ => trivial)
          (fun _ => .done (keptAll _) fun _ hs => hs) fun _ _ hs => hs

theorem rollback_moved {recordedBlock target : Nat} (hne : (target, none) ≠ base) :
    (recording B).Triple (Loaded cfg base)
      (Scanner.rollback cfg.options recordedBlock target) (afterMove cfg base (target, none)) := by
  refine .bind (await_quiet (.ext (.deleteAbove target)) rfl rfl fun _ => trivial) (fun _ => ?_)
    fun _ _ hs => .inl hs.1
  refine .bind ((await_move lasts_true rfl (fun _ => rfl) hne).imp (fun _ hs => ⟨hs.1, trivial⟩)
    fun _ _ hs => hs.1) (fun _ => ?_) fun _ _ hs => hs
  exact cascade_moved _ _

def afterReorg (cfg : StreamSetup) (base : Nat × Option H) (r : Except Failure Bool)
    (s : TickState H X W) : Prop :=
  match r with
  | .ok true => ∃ c, Moved cfg base c s
  | .ok false => Loaded cfg base s
  | .error _ => Stopped cfg base s

theorem handleReorg_moved [DecidableEq H] :
    (recording B).Triple (Loaded cfg base) (Scanner.handleReorg cfg.options base.1 base.2)
      (afterReorg cfg base) := by
  unfold Scanner.handleReorg
  split
  · exact .done (keptAll _) fun _ hs => hs
  · rename_i hcase
    obtain ⟨hhash, -⟩ := not_or.mp hcase
    refine .bind (.attempt (Q := fun _ => Loaded cfg base)
      ((await_quiet (.blockHash base.1) rfl rfl fun _ => by trivial).imp (fun _ hs => hs)
        fun _ _ hs => hs.1)) (fun current => ?_) fun _ _ hs => .inl hs
    cases current with
    | error _ => exact .done (keptAll _) fun _ hs => hs
    | ok currentHash =>
      dsimp only
      split
      · rename_i target _ _ _
        have hne : (target, none) ≠ base := fun h => hhash (congrArg Prod.snd h).symm
        exact .bind (rollback_moved hne) (fun _ => .done (keptAll _) fun _ hs => ⟨_, hs⟩)
          fun _ _ hs => hs
      · exact .done (keptAll _) fun _ hs => hs

def Reached (batch : LogBatch H) (hash : H) (made : List (CallMade H X)) : Prop :=
  (∃ earlier ∈ made, earlier.Fetches batch) ∧
    ∃ earlier ∈ made, earlier.ReadsHash batch.reachedBlock hash

theorem lasts_reached {batch : LogBatch H} {hash : H} : Lasts (X := X) (Reached batch hash) :=
  (lasts_has _).and (lasts_has _)

theorem advanced_moved {batch : LogBatch H} {hash : H} (hlt : base.1 < batch.reachedBlock)
    (hF : Lasts F) :
    (recording B).Triple (fun s => Loaded cfg base s ∧ F s.2)
      (do
        let _ ← Checkpoints.advance cfg.stream batch.reachedBlock hash
        let _ ← Checkpoints.resolveFailedBlocksThrough cfg.stream batch.reachedBlock
        return () : Program H (SetupCall H) Unit)
      fun r s => afterMove cfg base (batch.reachedBlock, some hash) r s ∧ F s.2 := by
  have hne : (batch.reachedBlock, some hash) ≠ base :=
    fun h => Nat.ne_of_gt hlt (congrArg Prod.fst h)
  have hmove : (recording B).Triple (fun s => Loaded cfg base s ∧ F s.2)
      (Async.await (.updateState cfg.stream (.advance batch.reachedBlock hash)))
      fun r s => afterMove cfg base (batch.reachedBlock, some hash) r s ∧ F s.2 :=
    await_move hF rfl (fun _ => rfl) hne
  refine .bind (Q := fun r s => afterMove cfg base (batch.reachedBlock, some hash) r s ∧ F s.2)
    ?_ (fun _ => ?_) fun _ _ hs => hs
  · refine .bind (await_loaded hF (.findState cfg.stream) rfl rfl fun _ _ => trivial)
      (fun current => ?_) fun _ _ hs => ⟨.inl hs.1.1, hs.1.2⟩
    cases current with
    | none => exact hmove.imp (fun _ hs => hs.1) fun _ _ hs => hs
    | some state =>
      dsimp only
      split
      · exact .done (keptAll _) fun _ hs => ⟨.inl hs.1.1, hs.1.2⟩
      · exact hmove.imp (fun _ hs => hs.1) fun _ _ hs => hs
  · exact .bind (await_moved hF (fun o w hw => hw.exec rfl rfl) fun _ => trivial)
      (fun _ => .done (keptAll _) fun _ hs => hs) fun _ _ hs => hs

def Blamed (made : List (CallMade H X)) : Prop := ∃ earlier ∈ made, earlier.BlamesBlock

theorem lasts_blamed : Lasts (Blamed (H := H) (X := X)) := lasts_has _

theorem blamed_post {fromBlock : Nat} {failure : Failure} :
    (recording B).Triple (fun s => Loaded cfg base s ∧ Blamed s.2)
      (do
        Checkpoints.recordError cfg.stream failure.message
        Checkpoints.recordFailedBlock cfg.stream fromBlock failure.message
        Async.throw failure : Program H (SetupCall H) ScanTickResult)
      (TickPost cfg base) := by
  refine .bind (Q := fun _ s => Loaded cfg base s ∧ Blamed s.2) ?_ (fun _ => ?_)
    fun _ _ hs => Stopped.post (.inl hs.1) trivial
  · exact .bind (await_loaded lasts_blamed (.updateState cfg.stream (.recordError _)) rfl
      (by simp [Call.moves, StateUpdate.toBlock]) fun _ _ => trivial)
      (fun _ => .done (keptAll _) fun _ hs => hs.1) fun _ _ hs => hs.1
  · exact .bind (await_loaded lasts_blamed (.upsertFailedBlock cfg.stream fromBlock _) rfl rfl
      fun _ hmade => hmade)
      (fun _ => .done (keptAll _) fun _ hs => Stopped.post (.inl hs.1.1) trivial)
      fun _ _ hs => Stopped.post (.inl hs.1.1) trivial

theorem ingest_post {checkpoint : IndexerState H} {confirmed : Option Nat} {boundary : Nat}
    {batch : LogBatch H} {hash : H} (hblock : checkpoint.lastProcessedBlock = base.1)
    (hlt : base.1 < batch.reachedBlock) :
    (recording B).Triple (fun s => Loaded cfg base s ∧ Reached batch hash s.2)
      (Scanner.ingest cfg.options checkpoint confirmed boundary batch hash)
      (TickPost cfg base) := by
  refine .bind (.attempt (Q := fun r s => (Loaded cfg base s ∧ Reached batch hash s.2) ∧
    ∀ failure, r = .ok (.error failure) → isDatabaseAvailabilityError failure = false →
      Blamed s.2)
    ((await_loaded lasts_reached
      (.ext (.process batch.logs (checkpoint.lastProcessedBlock + 1, batch.reachedBlock)))
      rfl rfl ?_).imp (fun _ hs => hs) ?_))
    (fun processed => ?_) fun _ _ hs => Stopped.post (.inl hs.1.1) trivial
  · exact fun _ hmade => ⟨batch, hash, rfl, rfl, hmade⟩
  · rintro r s ⟨hs, outcome, hmem⟩
    refine ⟨hs, fun failure hr havailable => ?_⟩
    obtain rfl := Except.ok.inj hr
    exact ⟨_, hmem, _, _, outcome, failure, havailable, rfl⟩
  cases processed with
  | error failure =>
    dsimp only
    split
    · exact .done (keptAll _) fun s hs => Stopped.post (.inl hs.1.1) ⟨rfl, rfl⟩
    · rename_i havailable
      exact blamed_post.imp (fun s hs => ⟨hs.1.1, hs.2 failure rfl (by simpa using havailable)⟩)
        fun _ _ hs => hs
  | ok _ =>
    refine .bind (.attempt (Q := fun r s => match r with
        | .ok r => afterMove cfg base (batch.reachedBlock, some hash) r s ∧ Reached batch hash s.2
        | .error _ => Stopped cfg base s)
      ((advanced_moved hlt lasts_reached).imp (fun _ hs => hs.1) fun _ _ hs => hs))
      (fun advanced => ?_) fun _ _ hs => hs.post trivial
    cases advanced with
    | error failure =>
      refine Protocol.Triple.imp (P := Stopped cfg base) ?_ (fun _ hs => hs.1) fun _ _ hs => hs
      dsimp only
      split
      · exact stops ⟨rfl, rfl⟩
      · exact .bind recordError_stopped (fun _ => stops trivial) fun _ _ hs => hs.post trivial
    | ok _ =>
      refine .done (keptAll _) fun s hs => hs.1.post ?_ ?_
      · rintro ⟨-, hscanned⟩
        dsimp only at hscanned
        omega
      · rintro _ ⟨⟩ -
        refine ⟨batch, hash, hs.2.1, hs.2.2, hs.1.row.checkpoint, ?_, rfl, ?_⟩ <;> dsimp only <;>
          omega

theorem scan_post {checkpoint : IndexerState H} {confirmed : Option Nat} {boundary : Nat}
    (hblock : checkpoint.lastProcessedBlock = base.1) :
    (recording B).Triple (Loaded cfg base)
      (Scanner.scan cfg.options checkpoint confirmed boundary) (TickPost cfg base) := by
  have hquiet := fun (s : TickState H X W) (hs : Loaded cfg base s) (r : ScanTickResult)
    (hr : Stands (.ok r)) => Stopped.post (.inl hs) hr
  refine .bind (await_quiet (.ext .addresses) rfl rfl fun _ => trivial) (fun addresses => ?_)
    fun _ _ hs => Stopped.post (.inl hs.1) trivial
  split
  · exact .done (keptAll _) fun s hs => hquiet s hs.1 _ ⟨rfl, rfl⟩
  · refine .bind (.attempt (Q := fun r s => Loaded cfg base s ∧
      ∀ batch, r = .ok (.ok batch) → ∃ earlier ∈ s.2, earlier.Fetches batch)
      ((await_quiet (.getLogs _) rfl rfl fun _ => by trivial).imp (fun _ hs => hs.1) ?_))
      (fun fetched => ?_) fun _ _ hs => Stopped.post (.inl hs.1) trivial
    · rintro r s ⟨hs, outcome, hmem⟩
      refine ⟨hs, fun batch hr => ?_⟩
      obtain rfl := Except.ok.inj hr
      exact ⟨_, hmem, _, outcome, rfl⟩
    cases fetched with
    | error failure =>
      cases failure with
      | rangeTooWide _ _ => exact .done (keptAll _) fun s hs => hquiet s hs.1 _ ⟨rfl, rfl⟩
      | error _ _ =>
        exact handleSourceFailure_post.imp (fun _ hs => .inl hs.1) fun _ _ hs => hs
    | ok batch =>
      dsimp only
      split
      · exact .done (keptAll _) fun s hs => hquiet s hs.1 _ ⟨rfl, rfl⟩
      · have hfetches : Lasts fun made : List (CallMade H X) =>
          ∃ earlier ∈ made, earlier.Fetches batch := lasts_has _
        refine .bind (.attempt (Q := fun r s => Loaded cfg base s ∧
          ∀ hash, r = .ok (.ok hash) → Reached batch hash s.2)
          ((await_loaded hfetches (.blockHash batch.reachedBlock) rfl rfl fun _ _ => trivial).imp
            (fun _ hs => ⟨hs.1, hs.2 batch rfl⟩) ?_))
          (fun read => ?_) fun _ _ hs => Stopped.post (.inl hs.1) trivial
        · rintro r s ⟨hs, outcome, hmem⟩
          refine ⟨hs.1, fun hash hr => ?_⟩
          obtain rfl := Except.ok.inj hr
          exact ⟨hs.2, _, hmem, outcome, rfl⟩
        cases read with
        | error _ => exact handleSourceFailure_post.imp (fun _ hs => .inl hs.1) fun _ _ hs => hs
        | ok hash =>
          exact (ingest_post hblock (by omega)).imp (fun _ hs => ⟨hs.1, hs.2 hash rfl⟩)
            fun _ _ hs => hs

theorem boundaryOf_loaded {confirmed : Option Nat} :
    (recording B).Triple (Loaded cfg base) (Scanner.boundaryOf cfg.options confirmed) fun _ =>
      Loaded cfg base := by
  unfold Scanner.boundaryOf
  split
  · rename_i confirmed maxBlock hcap
    obtain rfl : maxBlock = Async.await (.ext .maxBlock) := by
      cases hcapped : cfg.capped <;> simp [StreamSetup.options, hcapped] at hcap
      exact hcap.symm
    refine .bind (await_quiet (.ext .maxBlock) rfl rfl fun _ => trivial) (fun ceiling => ?_)
      fun _ _ hs => hs.1
    cases ceiling with
    | none => exact .done (keptAll _) fun _ hs => hs.1
    | some ceiling => exact .done (keptAll _) fun _ hs => hs.1
  · exact .done (keptAll _) fun _ hs => hs

def afterLoad (cfg : StreamSetup) (base : Nat × Option H) (r : Except Failure (IndexerState H))
    (s : TickState H X W) : Prop :=
  match r with
  | .ok state => (state.lastProcessedBlock, state.lastProcessedBlockHash) = base ∧ Loaded cfg base s
  | .error _ => ∀ r, Stands r → TickPost cfg base r s

theorem getOrCreate_loaded (w : World H W) :
    (recording B).Triple (· = (w, [])) (Checkpoints.getOrCreate cfg.stream cfg.startBlock)
      (afterLoad cfg (cfg.checkpoint w)) := by
  refine .await (keptAll _) (fun _ => keptAll _) ?_
  rintro _ o rfl -
  refine ⟨trivial, ?_⟩
  have hunmoved : ∀ made ∈ ((recording B).exec (.upsertState cfg.stream cfg.startBlock) o (w, [])).2.2,
      ¬made.Moves cfg.stream := List.forall_mem_singleton.mpr fun hmove => by cases hmove.1
  have hjustified :
      Justified ((recording B).exec (.upsertState cfg.stream cfg.startBlock) o (w, [])).2.2 :=
    Justified.append (by simp [Justified]) trivial
  obtain ⟨hrow, hstate⟩ := B.exec_load cfg o w
  change afterLoad cfg (cfg.checkpoint w) (B.exec (.upsertState cfg.stream cfg.startBlock) o w).1 _
  cases hanswer : (B.exec (.upsertState cfg.stream cfg.startBlock) o w).1 with
  | error _ => exact fun r hr => .of_unmoved hrow hunmoved hjustified hr
  | ok state =>
    obtain ⟨hpoint, hstands⟩ := hstate state hanswer
    exact ⟨hpoint, hstands, hunmoved, hjustified⟩

theorem tick_post [DecidableEq H] (cfg : StreamSetup) (B : Backend H (SetupCall H) X W)
    (w : World H W) :
    (recording B).Triple (· = (w, [])) (Scanner.tick cfg.options)
      (TickPost cfg (cfg.checkpoint w)) := by
  refine .bind (getOrCreate_loaded w) (fun checkpoint => ?_) fun _ _ hs => hs _ trivial
  rintro s ⟨hpoint, hs⟩
  generalize cfg.checkpoint w = base at hpoint hs ⊢
  subst hpoint
  revert s
  change (recording B).Triple (Loaded cfg _) _ _
  have hquiet := fun (s : TickState H X W) (hs : Loaded cfg
    (checkpoint.lastProcessedBlock, checkpoint.lastProcessedBlockHash) s) (r : ScanTickResult)
    (hr : Stands (.ok r)) => Stopped.post (.inl hs) hr
  split
  · exact .done (keptAll _) fun s hs => hquiet s hs _ ⟨rfl, rfl⟩
  · refine .bind handleReorg_moved (fun reorged => ?_) fun _ _ hs => hs.post trivial
    cases reorged with
    | true =>
      refine .done (keptAll _) fun s ⟨c, hs⟩ => hs.post (fun hstands => ?_) ?_
      · cases hstands.1
      · rintro _ ⟨⟩ hscanned
        cases hscanned
    | false =>
      refine .bind (.attempt (Q := fun _ => Loaded cfg _) ((await_quiet .head rfl rfl
        fun _ => by trivial).imp (fun _ hs => hs) fun _ _ hs => hs.1)) (fun head => ?_)
        fun _ _ hs => Stopped.post (.inl hs) trivial
      cases head with
      | error _ => exact handleSourceFailure_post.imp (fun _ hs => .inl hs) fun _ _ hs => hs
      | ok head =>
        refine .bind boundaryOf_loaded (fun boundary => ?_)
          fun _ _ hs => Stopped.post (.inl hs) trivial
        cases boundary with
        | none => exact .done (keptAll _) fun s hs => hquiet s hs _ ⟨rfl, rfl⟩
        | some boundary =>
          dsimp only
          split
          · exact .done (keptAll _) fun s hs => hquiet s hs _ ⟨rfl, rfl⟩
          · exact scan_post rfl

end stages

/-- A tick keeps its promise unless a call fails once the checkpoint has moved. -/
theorem tick_promised_iff [DecidableEq H] (cfg : StreamSetup) (B : Backend H (SetupCall H) X W)
    (os : List (Answers X)) (w : World H W) {r : Except Failure ScanTickResult}
    {s : TickState H X W}
    (h : (Scanner.tick cfg.options).drive (recording B).exec os (w, []) = (some r, s)) :
    Promised cfg (cfg.checkpoint w) r s ↔ ¬FailsOnceMoved cfg.stream s.2 := by
  have hdrive := ((tick_post cfg B w (w, []) rfl).drive fun o (_ : o ∈ os) _ _ _ => trivial).2
  rw [h] at hdrive
  have hpost : TickPost cfg (cfg.checkpoint w) r s := hdrive r rfl
  constructor
  · exact fun hpromised => hpost.stands.mp hpromised.stands
  · exact fun hsound => ⟨hpost.justified, hpost.stands.mpr hsound, hpost.reaches⟩

def idleBackend : Backend Nat (SetupCall Nat) Unit Unit where
  logs o _ _ := { logs := [], reachedBlock := o.reached }
  blockHash _ _ _ := some 7
  ext
    | .addresses, _, _ => (.ok [], ())
    | .maxBlock, _, _ => (.ok none, ())
    | .process _ _, _, _ => (.ok (), ())
    | .deleteAbove _, _, _ => (.ok (), ())

def idleStream : StreamSetup where
  stream := .factory
  startBlock := 0
  confirmationDepth := 12
  topics0 := none
  requireAddresses := false
  capped := false
  cascadeStreams := []

def emptyWorld : World Nat Unit := { tables := .empty, base := () }

def throughCall : Answers Unit := { fault := none, head := 20, reached := 5, ext := () }

theorem tick_promised_through : ∃ result s,
    (Scanner.tick idleStream.options).drive (recording idleBackend).exec
      (List.replicate 9 throughCall) (emptyWorld, []) = (some (.ok result), s) ∧
    result.scanned = 5 ∧ Promised idleStream (idleStream.checkpoint emptyWorld) (.ok result) s := by
  obtain ⟨result, s, hrun, hscanned, hok⟩ : ∃ result s,
      (Scanner.tick idleStream.options).drive (recording idleBackend).exec
        (List.replicate 9 throughCall) (emptyWorld, []) = (some (.ok result), s) ∧
      result.scanned = 5 ∧ s.2.all (fun made => made.answer.isOk) = true :=
    ⟨_, _, rfl, rfl, rfl⟩
  refine ⟨result, s, hrun, hscanned, ?_⟩
  rw [tick_promised_iff idleStream idleBackend (List.replicate 9 throughCall) emptyWorld hrun]
  refine not_failsOnceMoved_of_unfailed fun made hmade ⟨failure, hfailure⟩ => ?_
  have hanswer : made.answer.isOk = true := List.all_eq_true.mp hok made hmade
  rw [hfailure] at hanswer
  cases hanswer

def droppedCall : Answers Unit :=
  { throughCall with
    fault := some { failure := .error (some "P1001") "Can't reach database server", applied := false } }

/-- The pool goes down between `advance` and `resolveFailedBlocksThrough`. -/
theorem tick_still_but_moved : ∃ result s,
    (Scanner.tick idleStream.options).drive (recording idleBackend).exec
      (List.replicate 8 throughCall ++ [droppedCall]) (emptyWorld, []) = (some (.ok result), s) ∧
    result.reorged = false ∧ result.scanned = 0 ∧
      idleStream.checkpoint emptyWorld = (0, none) ∧ idleStream.checkpoint s.1 = (5, some 7) :=
  ⟨_, _, rfl, rfl, rfl, rfl, rfl⟩

end Stunks.Indexer
