import Stunks.Indexer.CurveRuns
import Stunks.Indexer.TradeWindows

namespace Stunks.Indexer

open Database Pons

variable {H β : Type}

namespace TradeConfig

open CascadeCrash (offChain)

variable [DecidableEq H] (cfg : TradeConfig H)

def Scanned (slot : Slot) (checkpoint : IndexerState H) (batch : LogBatch H) (s : IndexRows H) :
    Prop :=
  checkpoint.lastProcessedBlock < batch.reachedBlock ∧
    (slot = .curves → cfg.Listed batch.reachedBlock s ∧
      ∀ raw, cfg.Due checkpoint.lastProcessedBlock batch.reachedBlock raw → raw ∈ batch.logs)

def Knows (slot : Slot) : Phase H → IndexRows H → Prop
  | .loaded checkpoint, s => cfg.Sound slot.stream checkpoint s
  | .checked checkpoint, s => cfg.Sound slot.stream checkpoint s
  | .ceiled checkpoint ceiling, s => cfg.Sound slot.stream checkpoint s ∧
    ∀ bound, ceiling = some bound → cfg.Listed bound s
  | .bounded checkpoint boundary, s => cfg.Sound slot.stream checkpoint s ∧
    (slot = .curves → cfg.Listed boundary s)
  | .addressed checkpoint boundary addresses, s => cfg.Sound slot.stream checkpoint s ∧
    (slot = .curves → cfg.Listed boundary s ∧ addresses = [])
  | .fetched checkpoint batch, s => cfg.Sound slot.stream checkpoint s ∧
    cfg.Scanned slot checkpoint batch s
  | .hashed checkpoint batch reachedHash, s => cfg.Sound slot.stream checkpoint s ∧
    cfg.Scanned slot checkpoint batch s ∧
      reachedHash = hashAt cfg.hash cfg.chain batch.reachedBlock
  | .processed _ batch reachedHash, s => ∀ state, cfg.Sound slot.stream
    ((StateUpdate.advance batch.reachedBlock reachedHash).apply state) s
  | .idle, _ => True
  | .advanced .., _ => True
  | _, _ => False

def Holds (slot : Slot) (p : Phase H) : IndexWorld H → Prop := cfg.Held (cfg.Knows slot p)

section ticks

variable {cfg} {slot : Slot} {p q : Phase H} {v w : IndexWorld H} {s t : IndexRows H}
  {o : Answers IndexReply} {checkpoint : IndexerState H} {bound bound' : Nat}

omit [DecidableEq H] in
theorem Listed.mono (h : cfg.Listed bound s) (hle : bound' ≤ bound) : cfg.Listed bound' s :=
  fun launch hlaunch hstart hbound => h launch hlaunch hstart (hbound.trans hle)

omit [DecidableEq H] in
theorem Listed.grows (h : cfg.Listed bound s) (hgrows : IndexRows.Grows s t) : cfg.Listed bound t :=
  fun launch hlaunch hstart hbound => hgrows.tokens (h launch hlaunch hstart hbound)

omit [DecidableEq H] in
theorem Scanned.grows {batch : LogBatch H} (h : cfg.Scanned slot checkpoint batch s)
    (hgrows : IndexRows.Grows s t) : cfg.Scanned slot checkpoint batch t :=
  h.imp_right fun hcurves hslot => (hcurves hslot).imp_left fun hlisted => hlisted.grows hgrows

theorem knows_lasts (p : Phase H) : IndexRows.Lasts (cfg.Knows slot p) := by
  intro s t hgrows h
  cases p with
  | loaded _ => exact Sound.grows h hgrows
  | checked _ => exact Sound.grows h hgrows
  | ceiled _ _ => exact ⟨h.1.grows hgrows, fun bound hbound => (h.2 bound hbound).grows hgrows⟩
  | bounded _ _ => exact ⟨h.1.grows hgrows, fun hslot => (h.2 hslot).grows hgrows⟩
  | addressed _ _ _ =>
    exact ⟨h.1.grows hgrows, fun hslot => (h.2 hslot).imp_left fun hlisted => hlisted.grows hgrows⟩
  | fetched _ _ => exact ⟨h.1.grows hgrows, h.2.grows hgrows⟩
  | hashed _ _ _ => exact ⟨h.1.grows hgrows, h.2.1.grows hgrows, h.2.2⟩
  | processed _ _ _ => exact fun state => (h state).grows hgrows
  | _ => exact h

theorem Holds.kept (p : Phase H) : cfg.protocol.Kept (cfg.Holds slot p) :=
  TradeConfig.kept (knows_lasts p)

theorem Holds.same (h : cfg.Holds slot p w) (hgives : cfg.Gives w v) (hbase : v.base = w.base)
    (hq : cfg.Knows slot q w.base) : cfg.Gives w v ∧ cfg.Holds slot q v :=
  ⟨hgives, hgives.inv h.1, hbase ▸ hq⟩

omit [DecidableEq H] in
theorem blockHash_answer {blockNumber : Nat} {hash : H}
    (h : (cfg.indexBackend.exec (.blockHash blockNumber) o w).1 = .ok hash) :
    hash = hashAt cfg.hash cfg.chain blockNumber := by
  cases hfault : o.fault with
  | none =>
    simp only [Backend.exec_ok _ hfault, Backend.perform, indexBackend] at h
    split at h
    · rename_i current hcurrent
      cases h
      split at hcurrent
      · exact (Option.some.inj hcurrent).symm
      · cases hcurrent
    · cases h
  | some fault =>
    rw [Backend.exec_fault _ hfault] at h
    cases h

omit [DecidableEq H] in
theorem getLogs_answer {query : LogQuery} {batch : LogBatch H}
    (h : (cfg.indexBackend.exec (.getLogs query) o w).1 = .ok batch) :
    batch.reachedBlock ≤ query.toBlock ∧ batch.logs = (logsBetween cfg.hash cfg.chain
      (query.fromBlock - 1) batch.reachedBlock).filter query.selects := by
  cases hfault : o.fault with
  | none =>
    simp only [Backend.exec_ok _ hfault, Backend.perform, indexBackend] at h
    cases h
    exact ⟨(Nat.min_le_left ..).trans (Nat.min_le_right ..), rfl⟩
  | some fault =>
    rw [Backend.exec_fault _ hfault] at h
    cases h

omit [DecidableEq H] in
@[simp] theorem scanner_stream (slot : Slot) : (cfg.scanner slot).stream = slot.stream := by
  cases slot <;> rfl

omit [DecidableEq H] in
@[simp] theorem scanner_startBlock (slot : Slot) :
    (cfg.scanner slot).startBlock = cfg.startBlock := by
  cases slot <;> rfl

theorem fetched_batch {boundary : Nat} {addresses : List Address}
    {answer : Except Failure (LogBatch H)}
    (h : cfg.Knows slot (.addressed checkpoint boundary addresses) s)
    (hanswer : ∀ batch, answer = .ok batch → batch.reachedBlock ≤ boundary ∧
      batch.logs = (logsBetween cfg.hash cfg.chain checkpoint.lastProcessedBlock
        batch.reachedBlock).filter (LogQuery.selects
          { fromBlock := checkpoint.lastProcessedBlock + 1, toBlock := boundary, addresses
            topics0 := (cfg.scanner slot).topics0 })) :
    cfg.Knows slot (Phase.after (Phase.afterFetch checkpoint) answer) s := by
  refine Phase.holds_afterFetch (K := (cfg.Knows slot · s)) trivial fun batch hok hpast => ?_
  obtain ⟨hreached, hlogs⟩ := hanswer batch hok
  refine ⟨h.1, hpast, ?_⟩
  rintro rfl
  obtain ⟨hlisted, rfl⟩ := h.2 rfl
  refine ⟨hlisted.mono hreached, fun raw hraw => ?_⟩
  rw [hlogs]
  refine List.mem_filter.mpr ⟨mem_logsBetween.mpr ⟨hraw.onChain, hraw.lo, hraw.hi⟩, ?_⟩
  exact cfg.filtered raw hraw.isTrade

theorem step {c : Call H (IndexCall H) β} {next : Except Failure β → Phase H}
    (hc : Awaits (cfg.scanner slot) p c next) (h : cfg.Holds slot p w) :
    cfg.Gives w (cfg.indexBackend.exec c o w).2 ∧
      cfg.Holds slot (next (cfg.indexBackend.exec c o w).1) (cfg.indexBackend.exec c o w).2 := by
  have hknows := h.2
  have hother {c : Call H (IndexCall H) β} (hmove : c.isMove = false) (hown : c.isOwn = false)
      (hnext : cfg.Knows slot (next (cfg.indexBackend.exec c o w).1) w.base) :
      cfg.Gives w (cfg.indexBackend.exec c o w).2 ∧
        cfg.Holds slot (next (cfg.indexBackend.exec c o w).1) (cfg.indexBackend.exec c o w).2 :=
    h.same (gives_other hmove hown).1 (gives_other hmove hown).2 hnext
  cases hc with
  | load =>
    simp only [scanner_stream, scanner_startBlock]
    obtain ⟨hgives, hbase, hanswer⟩ := @gives_upsertState H _ cfg w o slot.stream h.1
    refine h.same hgives hbase ?_
    exact Phase.holds_afterLoad (K := (cfg.Knows slot · w.base)) trivial hanswer
  | @check checkpoint hhash hblock =>
    refine hother rfl rfl ?_
    cases hok : (cfg.indexBackend.exec (.blockHash checkpoint.lastProcessedBlock) o w).1 with
    | error _ => exact hknows
    | ok currentHash =>
      cases blockHash_answer hok
      rcases @CascadeCrash.afterCheck_canonical H _ (hashAt cfg.hash cfg.chain)
        (cfg.scanner slot).confirmationDepth checkpoint hhash hblock with ⟨hoff, -⟩ | ⟨-, hnext⟩
      · exact absurd hoff (Bool.eq_false_iff.mp (Sound.hash hknows))
      · rw [hnext]
        exact hknows
  | rewind => exact hknows.elim
  | look => exact hknows.elim
  | pull => exact hknows.elim
  | head =>
    refine hother rfl rfl ?_
    exact Phase.holds_after (K := (cfg.Knows slot · w.base)) trivial fun _ _ => hknows
  | fetch => exact hother rfl rfl (fetched_batch hknows fun _ hok => getLogs_answer hok)
  | hash =>
    refine hother rfl rfl ?_
    exact Phase.holds_after (K := (cfg.Knows slot · w.base)) trivial
      fun _ hok => ⟨hknows.1, hknows.2, blockHash_answer hok⟩
  | reread =>
    refine hother rfl rfl ?_
    exact Phase.holds_afterReread (K := (cfg.Knows slot · w.base)) trivial hknows
  | advance =>
    simp only [scanner_stream]
    refine h.same (gives_updateState fun state _ => hknows state) (Backend.exec_base _ rfl) ?_
    exact Phase.holds_after (K := (cfg.Knows slot · w.base)) trivial fun _ _ => trivial
  | resolve =>
    refine hother rfl rfl ?_
    exact Phase.holds_after (K := (cfg.Knows slot · w.base)) trivial fun _ _ => trivial
  | recordError =>
    simp only [scanner_stream]
    refine h.same (gives_updateState fun state hstate => ?_) (Backend.exec_base _ rfl) trivial
    obtain ⟨hstart, hhash, hdone⟩ := h.1.rows slot.stream state hstate
    exact ⟨hstart, (CascadeCrash.offChain_eq rfl rfl).trans hhash, hdone⟩
  | recordFailedBlock => exact hother rfl rfl trivial

theorem processed_of_done {batch : LogBatch H} {reachedHash : H}
    (h : cfg.Knows slot (.hashed checkpoint batch reachedHash) s)
    (hdone : cfg.Done slot.stream batch.reachedBlock t) :
    cfg.Knows slot (.processed checkpoint batch reachedHash) t := fun state => by
  obtain ⟨hsound, hscanned, hhash⟩ := h
  exact ⟨hsound.start.trans hscanned.1.le, CascadeCrash.offChain_recorded rfl hhash, hdone⟩

theorem process_step {batch : LogBatch H} {reachedHash : H} :
    cfg.protocol.Triple (cfg.Holds slot (.hashed checkpoint batch reachedHash))
      ((cfg.scanner slot).process batch.logs (checkpoint.lastProcessedBlock + 1, batch.reachedBlock))
      fun r => cfg.Holds slot (Phase.after (fun _ => .processed checkpoint batch reachedHash) r) := by
  intro w hw
  have hlasts := @knows_lasts H _ cfg slot (.hashed checkpoint batch reachedHash)
  obtain ⟨hsound, hscanned, -⟩ := id hw.2
  cases slot with
  | factory =>
    refine ((processLaunches_triple hlasts hsound.start).imp (fun _ h => h) fun r t h => ?_) w hw
    cases r with
    | error _ => exact ⟨h.1.1, trivial⟩
    | ok a =>
      refine ⟨h.1.1, processed_of_done h.1.2 fun launch hlaunch hstart hle => ?_⟩
      by_cases hold : launch.launchBlock ≤ checkpoint.lastProcessedBlock
      · exact h.1.2.1.done launch hlaunch hstart hold
      · refine h.2 a rfl launch (List.mem_filter.mpr ⟨hlaunch, ?_⟩)
        simp only [Bool.and_eq_true, decide_eq_true_eq]
        omega
  | curves =>
    have hlogs := (hscanned.2 rfl).2
    refine ((processTrades_triple hlasts (fun _ h => (h.2.1.2 rfl).1) hlogs).imp (fun _ h => h)
      fun r t h => ?_) w hw
    cases r with
    | error _ => exact ⟨h.1.1, trivial⟩
    | ok a =>
      refine ⟨h.1.1, processed_of_done h.1.2 fun raw hraw => ?_⟩
      by_cases hold : raw.blockNumber ≤ checkpoint.lastProcessedBlock
      · exact h.1.2.1.done raw { hraw with hi := hold }
      · exact h.2 a rfl raw { hraw with lo := by omega }

theorem ceiling_step : cfg.protocol.Triple (cfg.Holds .curves (.checked checkpoint))
    (cfg.factoryCheckpoint : Program H (IndexCall H) (Option Nat))
    fun r => cfg.Holds .curves (Phase.after (.ceiled checkpoint) r) := by
  refine .bind (Q := fun r => cfg.Holds .curves (Phase.after
    (fun state : IndexerState H => .ceiled checkpoint (some state.lastProcessedBlock)) r)) ?_
    (fun _ => .done (Holds.kept _) fun _ h => h) fun _ _ h => h
  refine .await (Holds.kept _) (fun _ => Holds.kept _) fun w o hw _ => ?_
  obtain ⟨hgives, hbase, hanswer⟩ := @gives_upsertState H _ cfg w o .factory hw.1
  refine hw.same hgives hbase ?_
  have hnext (answer : Except Failure (IndexerState H))
      (hanswer : ∀ state, answer = .ok state → cfg.Sound .factory state w.base) :
      cfg.Knows .curves (Phase.after
        (fun state => .ceiled checkpoint (some state.lastProcessedBlock)) answer) w.base := by
    cases answer with
    | error _ => trivial
    | ok state =>
      refine ⟨hw.2, fun bound hbound => ?_⟩
      cases hbound
      exact (hanswer state rfl).done
  exact hnext _ hanswer

theorem tickRule :
    TickRule cfg.protocol (cfg.scanner slot) (cfg.Holds slot) fun _ => True where
  kept := Holds.kept
  step hc _ _ hs _ := step hc hs
  passes hpass h := by
    cases hpass with
    | unrecorded _ => exact h
    | cascaded => exact h.2.elim
    | uncapped hcap _ =>
      refine ⟨h.1, h.2, ?_⟩
      rintro rfl
      cases hcap
    | capped hle _ => exact ⟨h.1, h.2.1, fun _ => (h.2.2 _ rfl).mono hle⟩
    | stop _ => exact ⟨h.1, trivial⟩
  settled _ _ := trivial
  deleteAbove _ _ := fun _ hw => hw.2.elim
  maxBlock checkpoint maxBlock hmax := by
    cases slot with
    | factory => cases hmax
    | curves =>
      cases hmax
      exact ceiling_step
  addresses checkpoint boundary := by
    cases slot with
    | factory => exact .done (Holds.kept _) fun _ hw => ⟨hw.1, hw.2.1, fun hslot => by cases hslot⟩
    | curves => exact .done (Holds.kept _) fun _ hw => ⟨hw.1, hw.2.1, fun _ => ⟨hw.2.2 rfl, rfl⟩⟩
  process _ _ _ := process_step

end ticks

def skipFrom (w : IndexWorld H) : Nat :=
  ((w.tables.states .curves).map IndexerState.lastProcessedBlock).getD cfg.startBlock

def provablyEmpty (w : IndexWorld H) : Bool :=
  (w.base.tokens.map TokenRow.launchBlock).min?.all fun earliest =>
    (logsBetween cfg.hash cfg.chain (cfg.skipFrom w) (earliest - 1)).all fun raw =>
      !(cfg.isTrade raw && cfg.launched raw.address)

structure Booting (v w : IndexWorld H) : Prop where
  inv : cfg.Inv w
  base : w.base = v.base
  skipFrom : cfg.skipFrom w = cfg.skipFrom v

def bootProtocol (v : IndexWorld H) :
    Protocol (Call H (IndexCall H)) Failure (Answers IndexReply) (IndexWorld H) where
  exec := cfg.indexBackend.exec
  allow _ _ _ := True
  rely w w' := w = w'
  guar _ _ := True
  keep w := cfg.Inv w ∧ w.base = v.base
  refl _ := rfl
  trans := Eq.trans

section boot

variable {cfg} {v w : IndexWorld H} {stream : IndexerStream} {earliest : Nat}

theorem boot_kept {P : IndexWorld H → Prop} (hP : ∀ w, P w → cfg.Inv w ∧ w.base = v.base) :
    (cfg.bootProtocol v).Kept P where
  stable h hsame := hsame ▸ h
  keep h := hP _ h

theorem Booting.keep (w : IndexWorld H) (h : cfg.Booting v w) : cfg.Inv w ∧ w.base = v.base :=
  ⟨h.inv, h.base⟩

omit [DecidableEq H] in
theorem skipFrom_upsertState {o : Answers IndexReply} :
    cfg.skipFrom (cfg.indexBackend.exec (.upsertState stream cfg.startBlock) o w).2 =
      cfg.skipFrom w := by
  cases hstate : w.tables.states stream with
  | some state => rw [(Backend.exec_upsertState _ hstate).1]
  | none =>
    rcases @Backend.exec_upsertState_new _ _ _ _ cfg.indexBackend o _ _ cfg.startBlock hstate with
      ⟨hsame, -⟩ | ⟨hnew, -⟩
    · rw [hsame]
    · rw [hnew]
      by_cases hcurves : stream = .curves
      · subst hcurves
        simp [skipFrom, hstate, freshState]
      · simp only [skipFrom, w.tables.setState_states_ne _ (Ne.symm hcurves)]

theorem getOrCreate_triple : (cfg.bootProtocol v).Triple (cfg.Booting v)
    (Checkpoints.getOrCreate stream cfg.startBlock) fun _ => cfg.Booting v := by
  refine .await (boot_kept Booting.keep) (fun _ => boot_kept Booting.keep) fun w o hw _ => ?_
  obtain ⟨hgives, hbase, -⟩ := @gives_upsertState H _ cfg w o stream hw.inv
  exact ⟨trivial, hgives.inv hw.inv, hbase.trans hw.base, skipFrom_upsertState.trans hw.skipFrom⟩

theorem earliest_triple : (cfg.bootProtocol v).Triple (cfg.Booting v)
    LaunchCall.earliestLaunchBlock.await fun r w => cfg.Booting v w ∧ ∀ earliest,
      r = .ok earliest → (v.base.tokens.map TokenRow.launchBlock).min? = earliest := by
  refine .await (boot_kept Booting.keep) (fun _ => boot_kept fun w h => h.1.keep) fun w o hw _ => ?_
  obtain ⟨hgives, hbase⟩ : cfg.Gives w
      (cfg.indexBackend.exec (.ext (.inl .earliestLaunchBlock)) o w).2 ∧ _ := gives_read rfl
  refine ⟨trivial, ⟨hgives.inv hw.inv, hbase.trans hw.base, ?_⟩, fun earliest hok => ?_⟩
  · have hstates : (cfg.indexBackend.exec (.ext (.inl .earliestLaunchBlock)) o w).2.tables.states =
        w.tables.states := Backend.exec_states _ rfl
    have hskip := hw.skipFrom
    simp only [TradeConfig.skipFrom, bootProtocol, hstates] at hskip ⊢
    exact hskip
  · rcases @Backend.exec_ext _ _ _ _ _ cfg.indexBackend (.inl .earliestLaunchBlock) o w with
      ⟨⟨error, herror⟩, -⟩ | ⟨-, hanswer⟩
    · cases hok.symm.trans herror
    · rw [← hw.base]
      exact Except.ok.inj (hanswer earliest hok)

theorem fastForward_sound (hempty : cfg.provablyEmpty v = true)
    (hearliest : (v.base.tokens.map TokenRow.launchBlock).min? = some earliest) {reason : String}
    {state : IndexerState H} (hw : cfg.Booting v w)
    (hstate : w.tables.states .curves = some state) :
    cfg.Sound .curves ((StateUpdate.fastForward (earliest - 1) reason).apply state) w.base := by
  have hbefore : cfg.startBlock ≤ earliest - 1 := by
    obtain ⟨row, hrow, rfl⟩ := List.mem_map.mp (List.min?_mem hearliest)
    rw [← hw.base] at hrow
    obtain ⟨launch, -, hstart, hlisting⟩ := hw.inv.listings _ (List.mem_map_of_mem hrow)
    have hblock : launch.launchBlock = row.launchBlock := congrArg Prod.snd hlisting
    omega
  refine ⟨hbefore, CascadeCrash.offChain_unrecorded rfl, fun raw hraw => ?_⟩
  have hlast : cfg.skipFrom v = state.lastProcessedBlock := by
    rw [← hw.skipFrom]
    simp [TradeConfig.skipFrom, hstate]
  by_cases hold : raw.blockNumber ≤ state.lastProcessedBlock
  · exact (hw.inv.rows .curves state hstate).done raw { hraw with hi := hold }
  · simp only [provablyEmpty, hearliest, Option.all_some, List.all_eq_true] at hempty
    have hnone := hempty raw (mem_logsBetween.mpr ⟨hraw.onChain, by omega, hraw.hi⟩)
    simp [hraw.isTrade, hraw.launched] at hnone

theorem fastForward_triple (hempty : cfg.provablyEmpty v = true)
    (hearliest : (v.base.tokens.map TokenRow.launchBlock).min? = some earliest) {reason : String} :
    (cfg.bootProtocol v).Triple (cfg.Booting v)
      (Checkpoints.fastForward .curves (earliest - 1) reason)
      fun _ w => cfg.Inv w ∧ w.base = v.base := by
  refine .bind (Q := fun _ => cfg.Booting v) ?_ (fun current => ?_) fun _ w hw => hw.keep
  · refine .await (boot_kept Booting.keep) (fun _ => boot_kept Booting.keep) fun w o hw _ => ?_
    have hsame : (cfg.indexBackend.exec (.findState .curves) o w).2 = w :=
      (Backend.exec_findState _).1
    simp only [bootProtocol, hsame]
    exact ⟨trivial, hw⟩
  · cases current with
    | none => exact .done (boot_kept Booting.keep) fun w hw => hw.keep
    | some current =>
      dsimp only
      split
      · exact .done (boot_kept Booting.keep) fun w hw => hw.keep
      · refine .bind (.await (boot_kept Booting.keep) (fun _ => boot_kept fun _ h => h)
          fun w o hw _ => ?_) (fun _ => .done (boot_kept fun _ h => h) fun _ h => h) fun _ _ h => h
        have hgives : cfg.Gives w (cfg.indexBackend.exec
            (.updateState .curves (.fastForward (earliest - 1) reason)) o w).2 :=
          gives_updateState fun state hstate => fastForward_sound hempty hearliest hw hstate
        exact ⟨trivial, hgives.inv hw.inv, (Backend.exec_base _ rfl).trans hw.base⟩

theorem startup_triple (hempty : cfg.provablyEmpty v = true) :
    (cfg.bootProtocol v).Triple (cfg.Booting v) (cfg.startup LaunchCall.earliestLaunchBlock.await)
      fun _ w => cfg.Inv w ∧ w.base = v.base := by
  refine .bind getOrCreate_triple (fun _ => ?_) fun _ w hw => hw.keep
  refine .bind getOrCreate_triple (fun _ => ?_) fun _ w hw => hw.keep
  refine .bind earliest_triple (fun earliest => ?_) fun _ w hw => hw.1.keep
  cases earliest with
  | none => exact .done (boot_kept fun w h => h.1.keep) fun w hw => hw.1.keep
  | some earliest =>
    dsimp only
    split
    · intro w hw
      exact Protocol.Triple.bind (fastForward_triple hempty (hw.2 _ rfl))
        (fun _ => .done (boot_kept fun _ h => h) fun _ h => h) (fun _ _ h => h) w hw.1
    · exact .done (boot_kept fun w h => h.1.keep) fun w hw => hw.1.keep

theorem Inv.booted (h : cfg.Inv w) {booted : Bool} :
    cfg.Inv { w with base := { w.base with booted } } where
  listings := h.listings
  keys := h.keys
  rows stream state hstate :=
    (h.rows stream state hstate).grows ⟨fun _ hx => hx, fun _ hx => hx⟩

theorem boot_gives (hinv : cfg.Inv v) (hempty : cfg.provablyEmpty v = true)
    (answers : List (Answers IndexReply)) : cfg.Gives v (cfg.boot answers v) := by
  have hsafe := startup_triple hempty v ⟨hinv, rfl, rfl⟩
  obtain ⟨hafter, hbase⟩ := (hsafe.drive fun o (_ : o ∈ answers) _ _ _ => trivial).1
  simp only [bootProtocol] at hafter hbase
  unfold TradeConfig.boot
  generalize Async.drive _ _ answers v = driven at hafter hbase ⊢
  obtain ⟨result, w⟩ := driven
  dsimp only at hafter hbase ⊢
  split
  · exact ⟨fun _ => hafter.booted, by rw [hbase]; exact ⟨fun _ hx => hx, fun _ hx => hx⟩⟩
  · exact ⟨fun _ => hafter, by rw [hbase]; exact .refl _⟩

end boot

section runs

/-- At every restart, no trade is left in the blocks that are passed over. -/
def skipsNothing (c : IndexState H) : IndexLabel → Bool
  | .env _ => c.world.base.booted || cfg.provablyEmpty c.world
  | _ => true

/-- Every trade by the curve of a token, up to the checkpoint of the curve stream, has one row. -/
def Recorded (w : IndexWorld H) : Prop :=
  ∀ state, w.tables.states .curves = some state → ∀ row ∈ w.base.tokens, ∀ raw,
    OnChain cfg.hash cfg.chain raw → raw.address = row.token.curveAddress → cfg.isTrade raw = true →
      cfg.startBlock < raw.blockNumber → raw.blockNumber ≤ state.lastProcessedBlock →
        ∃ trade, (w.base.trades.filter fun trade => trade.key = raw.key) = [trade]

variable {cfg}

theorem Inv.recorded {w : IndexWorld H} (h : cfg.Inv w) : cfg.Recorded w := by
  intro state hstate row hrow raw honChain haddress htrade hlo hhi
  obtain ⟨launch, hlaunch, hstart, hlisting⟩ := h.listings _ (List.mem_map_of_mem hrow)
  have hcurve : launch.token.curveAddress = raw.address :=
    (congrArg (fun x => x.1.2.1) hlisting).trans haddress.symm
  have hlaunched : cfg.launched raw.address = true :=
    List.any_eq_true.mpr ⟨launch, hlaunch, by simp [hstart, hcurve]⟩
  obtain ⟨trade, hmem, hkey⟩ := List.mem_map.mp
    ((h.rows .curves state hstate).done raw ⟨honChain, htrade, hlaunched, hlo, hhi⟩)
  exact ⟨trade, hkey ▸ Table.filter_key h.keys hmem⟩

variable (cfg) in
theorem inv_empty : cfg.Inv (emptyIndex H) where
  listings _ hx := by cases hx
  keys := .nil
  rows _ _ hstate := by cases hstate

def outline : cfg.indexSystem.Outline fun c l => cfg.skipsNothing c l = true where
  protocol _ := cfg.protocol
  idle _ := cfg.Inv
  post slot := TickRule.Outcome (cfg.Holds slot) fun _ => True
  exec _ _ _ _ _ := rfl
  allow _ _ := trivial
  peer _ hgives := fun _ => hgives
  rest h hgives := (hgives h).inv h
  start _ _ hidle := ⟨tickRule.tick _ ⟨hidle, trivial⟩, fun _ _ _ => .refl _⟩
  finish h := ⟨h.1.1, fun _ _ _ => .refl _⟩
  env := @fun c answers hok slot => by
    intro hinv
    simp only [indexSystem]
    split
    · exact .refl _
    · rename_i hdown
      refine boot_gives hinv ?_ answers
      simpa [skipsNothing, hdown] using hok
  crash := @fun c _ hall slot => by
    have hinv : cfg.Inv c.world := by
      by_cases htask : c.tasks slot = none
      · exact (hall slot).1 htask
      · exact (hall slot).2 htask
    exact hinv.booted

theorem trades_recorded {ls : List IndexLabel} {c : IndexState H}
    (hrun : cfg.indexSystem.Run (fun c l => cfg.skipsNothing c l = true) (.rest (emptyIndex H)) ls c) :
    cfg.Recorded c.world := by
  have hinv := outline.inv_run (outline.inv_rest fun _ => inv_empty cfg) hrun
  exact Inv.recorded (outline.keep_of_inv (i := .curves) hinv fun _ hs => hs)

end runs

section sample

def sampleEntry : Entry :=
  { address := 11, topics := [1], data := [], transactionHash := 7, logIndex := 0 }

def sampleChain : Chain :=
  [⟨[], 0⟩, ⟨[], 1⟩, ⟨[], 2⟩, ⟨[sampleEntry], 3⟩, ⟨[], 4⟩]

def sampleLaunch (token launchBlock : Nat) : TokenRow where
  token := { address := token, curveAddress := token + 1, totalSupply := 1000, phase := .notGraduated
             stats := sampleStats }
  launchBlock

def sampleDecode (raw : RawLog Nat) : Option PonsEvent :=
  if raw.topics = [1] then sampleBuy raw else none

def tradeSample : TradeConfig Nat where
  startBlock := 0
  confirmationDepth := 1
  factory := 1
  factoryTopics := []
  curveTopics := [1]
  hash := List.length
  chain := sampleChain
  launches := [sampleLaunch 10 2, sampleLaunch 20 4]
  decodePonsLog := sampleDecode
  deps := sampleDeps
  unique := by decide
  deployed raw hraw := by
    have hmem : raw ∈ (List.range 5).flatMap (logsAt List.length sampleChain) :=
      List.mem_flatMap.mpr ⟨raw.blockNumber, List.mem_range.mpr hraw.lt_length, hraw⟩
    exact (by decide : ∀ raw ∈ (List.range 5).flatMap (logsAt List.length sampleChain),
      ∀ launch ∈ [sampleLaunch 10 2, sampleLaunch 20 4],
        launch.token.curveAddress = raw.address → launch.launchBlock ≤ raw.blockNumber) raw hmem
  filtered raw htrade := by
    have htopics : raw.topics = [1] := by
      by_contra hne
      simp [sampleDecode, hne] at htrade
    simp [LogQuery.selects, htopics]

def sampleAnswer (described : Address → Bool) : Answers IndexReply where
  fault := none
  head := 9
  reached := 4
  ext :=
    { described, failure := .error none "launch not recorded", now := 0
      curve := { blockTime := id, curveState := sampleCurveState, launched := sampleLaunched } }

def calls (slot : Slot) (described : Address → Bool) (count : Nat) : List IndexLabel :=
  List.replicate count (.call slot (sampleAnswer described))

def restart : IndexLabel := .env (List.replicate 9 (sampleAnswer fun _ => true))

def wholeRun : List IndexLabel :=
  [restart, .start .factory] ++ calls .factory (fun _ => true) 9 ++ [.finish .factory, .start .curves] ++
    calls .curves (fun _ => true) 19 ++ [.finish .curves]

def skippedRun : List IndexLabel :=
  [restart, .start .factory] ++ calls .factory (fun token => token ≠ 10) 8 ++
    [.finish .factory, .crash, restart, .start .factory] ++ calls .factory (fun _ => true) 9

def passed (c : IndexState Nat) : Bool :=
  (c.world.tables.states .curves).any (fun state => 3 ≤ state.lastProcessedBlock) &&
    c.world.base.tokens.any fun row => row.token.curveAddress = 11

def sampleTrade : RawLog Nat := sampleEntry.toRawLog List.length sampleChain 3

end sample

theorem trades_recorded_sample :
    ∃ c : IndexState Nat, passed c = true ∧ tradeSample.Recorded c.world := by
  obtain ⟨c, hrun, hpassed⟩ : ∃ c, tradeSample.indexSystem.Run
      (fun c l => tradeSample.skipsNothing c l = true) (.rest (emptyIndex Nat)) wholeRun c ∧
        passed c = true :=
    System.Run.exists_of_any (by decide)
  exact ⟨c, hpassed, trades_recorded hrun⟩

theorem trade_skipped : ∃ c : IndexState Nat, tradeSample.indexSystem.Run (fun _ _ => True)
    (.rest (emptyIndex Nat)) skippedRun c ∧ ¬ tradeSample.Recorded c.world := by
  obtain ⟨c, hrun, htest⟩ : ∃ c, tradeSample.indexSystem.Run (fun _ _ => True)
      (.rest (emptyIndex Nat)) skippedRun c ∧ (passed c && c.world.base.trades.isEmpty) = true :=
    System.Run.exists_of_any (by decide)
  refine ⟨c, hrun, fun hrecorded => ?_⟩
  simp only [passed, Bool.and_eq_true, List.isEmpty_iff, Option.any_eq_true, List.any_eq_true,
    decide_eq_true_eq] at htest
  obtain ⟨⟨⟨state, hstate, hlast⟩, row, hrow, hcurve⟩, hnone⟩ := htest
  have honChain : sampleTrade ∈ logsAt List.length sampleChain 3 := List.mem_singleton_self _
  obtain ⟨trade, htrade⟩ := hrecorded state hstate row hrow sampleTrade honChain hcurve.symm
    (by decide) (by decide) hlast
  rw [hnone] at htrade
  cases htrade

end TradeConfig

end Stunks.Indexer
