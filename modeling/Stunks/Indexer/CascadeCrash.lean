import Stunks.Indexer.CascadeBooks
import Stunks.Indexer.CascadeRace

namespace Stunks.Indexer

open Database

namespace CascadeCrash

open CascadeRows (Placed)
open IndexerConfig (CascadeWorld CascadeState CascadeLabel cascadeExec cascadeBackend)

variable {H β : Type} [DecidableEq H] {canonical : Nat → H} {depth : Nat}

section factory

variable {cfg : IndexerConfig} {p : Phase H} {v w : CascadeWorld H} {o : Answers (CascadeReply H)}
  {checkpoint state state' : IndexerState H} {target : Nat} {answer : Except Failure β}

theorem factory_update (h : Holds canonical depth .factory p w)
    (hstate : w.tables.states .factory = some state)
    (hoff : offChain canonical state' = offChain canonical state)
    (hlast : offChain canonical state' = true →
      state'.lastProcessedBlock = state.lastProcessedBlock)
    (hstates : v.tables.states = (w.tables.setState .factory state').states)
    (hbase : v.base = w.base) :
    FactoryLeaves canonical depth w v ∧ Books canonical depth v ∧ v.base.booted = true ∧
      (Pending canonical v.tables.states v.base ↔ Pending canonical w.tables.states w.base) := by
  have hpending : Pending canonical v.tables.states v.base ↔
      Pending canonical w.tables.states w.base := by
    rw [Pending, Pending, hstates, hbase, astray_eq (w.tables.setState_states_self ..),
      astray_eq hstate, hoff]
  have hbooks (hw : Books canonical depth w) : Books canonical depth v := by
    rw [Books, hstates, hbase]
    exact hw.moveFactory hstate hoff hlast
  refine ⟨.of_threatened hbooks (by rw [hbase]) (fun _ block _ hthreat => ?_) (.inl ?_)
    fun _ => by rw [hbase]; exact h.2.1, hbooks h.1, by rw [hbase]; exact h.2.1, hpending⟩
  · rw [Threatened, hpending, hbase]
    exact hthreat
  · rw [hstates]
    rfl

theorem factory_rewind (h : Holds canonical depth .factory (.deleted checkpoint target) w)
    (hunrecorded : state.lastProcessedBlockHash = none) {answer : Except Failure (IndexerState H)}
    (hanswer : answer = .ok state)
    (hstates : v.tables.states = (w.tables.setState .factory state).states)
    (hbase : v.base = { w.base with
      cascading := some target, processed := []
      turn := { w.base.turn with ceiled := false, processed := false } }) :
    Leaves canonical depth .factory w v ∧ Holds canonical depth .factory
      (Phase.after (fun _ => .rewound checkpoint target [.curves]) answer) v := by
  cases hanswer
  obtain ⟨hbooks, hbooted, hstate, hoff, rfl, -⟩ := h
  have hafter : Books canonical depth v := by
    rw [Books, hstates, hbase]
    exact Accounted.rewind hbooks hstate hoff hunrecorded
  have hcascading : v.base.cascading = some (checkpoint.lastProcessedBlock - depth) := by rw [hbase]
  refine ⟨FactoryLeaves.of_threatened (fun _ => hafter) (by rw [hbase])
    (fun _ block _ _ => .inl (.inr (by rw [hcascading]; exact Option.some_ne_none _)))
    (.inl (by rw [hstates]; rfl))
    fun _ => by rw [hbase]; exact hbooted, hafter, by rw [hbase]; exact hbooted, ?_,
    .inr ⟨rfl, hcascading⟩⟩
  rw [hstates, astray_eq (w.tables.setState_states_self ..), offChain_unrecorded hunrecorded]

theorem factory_cascade (checkpoint : IndexerState H) (h : Books canonical depth w)
    (hbooted : w.base.booted = true) (hcascading : w.base.cascading = some target)
    (hfactory : astray canonical v.tables.states .factory = false)
    (hafter : Books canonical depth v)
    (hcurves : v.tables.states .curves = w.tables.states .curves ∨
      astray canonical v.tables.states .curves = false)
    (hbase : v.base = w.base.cascade target) :
    Leaves canonical depth .factory w v ∧
      Holds canonical depth .factory (.rewound checkpoint target []) v := by
  refine ⟨FactoryLeaves.of_threatened (fun _ => hafter) (by rw [hbase]; rfl)
    (fun _ block hblock _ => .inr ⟨target, ?_, h.cascading target hcascading block hblock⟩) hcurves
    fun _ => by rw [hbase]; exact hbooted, hafter, by rw [hbase]; exact hbooted, hfactory,
    .inl ⟨rfl, by rw [hbase]; rfl⟩⟩
  rw [hbase]
  exact List.mem_cons_self

theorem factory_look (h : Holds canonical depth .factory (.rewound checkpoint target [.curves]) w)
    (hstates : v.tables.states = w.tables.states)
    (hbase : v.base = w.base.noteLook (.ok (w.tables.states .curves))) :
    Leaves canonical depth .factory w v ∧ Holds canonical depth .factory
      (Phase.afterLook checkpoint target .curves [] (w.tables.states .curves)) v := by
  obtain ⟨hbooks, hbooted, hfactory, hrest⟩ := id h
  obtain ⟨-, hcascading⟩ := hrest.resolve_left fun hnil => List.cons_ne_nil _ _ hnil.1
  obtain ⟨state, hstate⟩ := hbooks.rows .curves
  replace hstate : w.tables.states .curves = some state := hstate
  simp only [CascadeRows.noteLook, hcascading, hstate, Option.all_some, decide_eq_true_eq] at hbase
  simp only [hstate, Phase.afterLook]
  split at hbase
  · rename_i hle
    rw [if_pos hle]
    refine factory_cascade checkpoint hbooks hbooted hcascading (by rwa [hstates]) ?_
      (.inl (by rw [hstates])) hbase
    rw [Books, hstates, hbase]
    exact Accounted.cascade hbooks hcascading hfactory fun current hcurrent => by
      cases hstate.symm.trans hcurrent
      exact hle
  · rename_i hgt
    rw [if_neg hgt]
    exact h.same hstates hbase ⟨hfactory, rfl, rfl, hcascading⟩

theorem factory_pull (h : Holds canonical depth .factory (.ahead checkpoint target .curves []) w)
    (hlast : state.lastProcessedBlock = target) (hunrecorded : state.lastProcessedBlockHash = none)
    (hstates : v.tables.states = (w.tables.setState .curves state).states)
    (hbase : v.base = w.base.cascade target) :
    Leaves canonical depth .factory w v ∧
      Holds canonical depth .factory (.rewound checkpoint target []) v := by
  obtain ⟨hbooks, hbooted, hfactory, -, -, hcascading⟩ := h
  have hmoved : Accounted canonical depth (w.tables.setState .curves state).states w.base :=
    Accounted.moveCurves hbooks
      (fun block hblock hle => .inl (.inr (by rw [hcascading]; exact Option.some_ne_none _)))
      fun _ => offChain_unrecorded hunrecorded
  refine factory_cascade checkpoint hbooks hbooted hcascading ?_ ?_ (.inr ?_) hbase
  · rw [hstates]
    exact hfactory
  · rw [Books, hstates, hbase]
    refine hmoved.cascade hcascading hfactory fun current hcurrent => ?_
    rw [Tables.setState_states_self] at hcurrent
    cases hcurrent
    exact hlast.le
  · rw [hstates, astray_eq (w.tables.setState_states_self ..), offChain_unrecorded hunrecorded]

theorem factory_delete (h : Holds canonical depth .factory (.diverged checkpoint target) w) :
    Leaves canonical depth .factory w
        (cascadeExec .factory (.ext (.deleteTokensAbove target)) o w).2 ∧
      Holds canonical depth .factory (Phase.after (fun _ => .deleted checkpoint target)
        (cascadeExec .factory (.ext (.deleteTokensAbove target)) o w).1)
        (cascadeExec .factory (.ext (.deleteTokensAbove target)) o w).2 := by
  obtain ⟨hbooks, hbooted, hknows⟩ := id h
  obtain ⟨hstate, hoff, htarget, hcascading⟩ := id hknows
  have hpending : Pending canonical w.tables.states w.base :=
    .inl (by rw [astray_eq hstate, hoff])
  obtain ⟨hstates, ⟨⟨error, herror⟩, hbase⟩ | hbase⟩ :=
    @IndexerConfig.cascadeExec_ext H Unit .factory o w (.deleteTokensAbove target)
  · rw [herror]
    exact h.same hstates hbase hcascading
  · replace hbase : (cascadeExec .factory (.ext (.deleteTokensAbove target)) o w).2.base =
        w.base.deleteTokensAbove target := hbase
    generalize (cascadeExec .factory (.ext (.deleteTokensAbove target)) o w).1 = answer
    generalize (cascadeExec .factory (.ext (.deleteTokensAbove target)) o w).2 = v at hstates hbase ⊢
    have hafter : Books canonical depth v := by
      rw [Books, hstates, hbase, htarget]
      exact Accounted.deleteTokensAbove hbooks hstate hoff hcascading
    refine ⟨⟨fun _ => hafter, fun _ block _ => .inl (.inl ?_), .inl (by rw [hstates]), fun _ => ?_⟩,
      hafter, by rw [hbase]; exact hbooted, ?_⟩
    · rw [hstates, hbase]
      exact hpending
    · rw [hbase]
      exact hbooted
    · have hnone : v.base.cascading = none :=
        (congrArg CascadeRows.cascading hbase).trans hcascading
      exact Phase.holds_after (K := (FactoryKnows canonical depth · v)) hnone
        fun _ _ => ⟨(congrFun hstates _).trans hstate, hoff, htarget, hnone⟩

theorem factory_still {rows : CascadeRows} (hbooks : Books canonical depth v)
    (hnot : ¬ Pending canonical w.tables.states w.base)
    (hstates : v.tables.states = w.tables.states) (hbase : v.base = rows)
    (hstale : rows.stale = w.base.stale) (hcascading : rows.cascading = w.base.cascading)
    (hrewound : rows.rewound = w.base.rewound) (hbooted : rows.booted = true) :
    FactoryLeaves canonical depth w v ∧ v.base.booted = true ∧
      ¬ Pending canonical v.tables.states v.base := by
  subst hbase
  have hpending : Pending canonical v.tables.states v.base ↔
      Pending canonical w.tables.states w.base := by
    rw [Pending, Pending, hstates, hcascading]
  refine ⟨.of_threatened (fun _ => hbooks) hstale (fun _ block _ hthreat => ?_)
    (.inl (by rw [hstates])) fun _ => hbooted, hbooted, mt hpending.mp hnot⟩
  rw [Threatened, hpending, hrewound]
  exact hthreat

theorem factory_store {batch : LogBatch H} {reachedHash : H} {fromBlock toBlock : Nat}
    (h : Holds canonical depth .factory (.hashed checkpoint batch reachedHash) w) :
    Leaves canonical depth .factory w
        (cascadeExec .factory (.ext (.storeLaunches fromBlock toBlock)) o w).2 ∧
      Holds canonical depth .factory (Phase.after (fun _ => .processed checkpoint batch reachedHash)
        (cascadeExec .factory (.ext (.storeLaunches fromBlock toBlock)) o w).1)
        (cascadeExec .factory (.ext (.storeLaunches fromBlock toBlock)) o w).2 := by
  obtain ⟨hbooks, hbooted, hnot, hhash⟩ := id h
  obtain ⟨hstates, ⟨⟨error, herror⟩, hbase⟩ | hbase⟩ :=
    @IndexerConfig.cascadeExec_ext H Unit .factory o w (.storeLaunches fromBlock toBlock)
  · rw [herror]
    exact h.same hstates hbase (not_pending.mp hnot).2
  · replace hbase : (cascadeExec .factory (.ext (.storeLaunches fromBlock toBlock)) o w).2.base =
        w.base.storeLaunches o.ext.launches fromBlock toBlock := hbase
    generalize (cascadeExec .factory (.ext (.storeLaunches fromBlock toBlock)) o w).1 = answer
    generalize (cascadeExec .factory (.ext (.storeLaunches fromBlock toBlock)) o w).2 = v
      at hstates hbase ⊢
    have hafter : Books canonical depth v := by
      rw [Books, hstates, hbase]
      exact Accounted.storeLaunches hbooks (not_pending.mp hnot).1 hbooted
    obtain ⟨hleaves, hrunning, hstill⟩ :=
      factory_still hafter hnot hstates hbase rfl rfl rfl hbooted
    exact ⟨hleaves, hafter, hrunning, Phase.holds_after (K := (FactoryKnows canonical depth · v))
      (not_pending.mp hstill).2 fun _ _ => ⟨hstill, hhash⟩⟩

theorem factory_load {answer : Except Failure (IndexerState H)}
    (hstate : w.tables.states .factory = some state) (hcascading : w.base.cascading = none)
    (hanswer : ∀ checkpoint, answer = .ok checkpoint → checkpoint = state) :
    FactoryKnows canonical depth (Phase.after Phase.afterLoad answer) w := by
  refine Phase.holds_afterLoad (K := (FactoryKnows canonical depth · w)) hcascading ?_
  intro checkpoint hok
  cases hanswer checkpoint hok
  exact ⟨hstate, hcascading⟩

theorem factory_head {answer : Except Failure Nat}
    (h : Holds canonical depth .factory (.checked checkpoint) w)
    (hstates : v.tables.states = w.tables.states) (hbase : v.base = w.base.check .factory) :
    Leaves canonical depth .factory w v ∧
      Holds canonical depth .factory (Phase.after (fun _ => .checked checkpoint) answer) v := by
  obtain ⟨hbooks, hbooted, hnot⟩ := h
  have hafter : Books canonical depth v := by
    rw [Books, hstates, hbase]
    exact Accounted.checkFactory hbooks hnot
  obtain ⟨hleaves, hrunning, hstill⟩ :=
    factory_still hafter hnot hstates hbase rfl rfl rfl hbooted
  exact ⟨hleaves, hafter, hrunning, Phase.holds_after (K := (FactoryKnows canonical depth · v))
    (not_pending.mp hstill).2 fun _ _ => hstill⟩

theorem factory_step {c : Call H CascadeCall β} {next : Except Failure β → Phase H}
    (hc : Awaits (cfg.slotScanner .factory) p c next)
    (h : Holds canonical cfg.confirmationDepth .factory p w)
    (hallow : reliable canonical .factory o c = true) :
    Leaves canonical cfg.confirmationDepth .factory w (cascadeExec .factory c o w).2 ∧
      Holds canonical cfg.confirmationDepth .factory (next (cascadeExec .factory c o w).1)
        (cascadeExec .factory c o w).2 := by
  obtain ⟨hbooks, hbooted, hknows⟩ := id h
  obtain ⟨state, hstate⟩ := hbooks.rows .factory
  replace hstate : w.tables.states .factory = some state := hstate
  cases hc with
  | load =>
    obtain ⟨hstates, hbase, hanswer⟩ :=
      @IndexerConfig.cascadeExec_upsertState H .factory o w .factory state cfg.startBlock hstate
    exact h.same hstates hbase (factory_load hstate hknows hanswer)
  | @check checkpoint hhash hblock =>
    refine h.other rfl rfl (fun _ _ => ⟨_, rfl⟩) ?_
    rw [blockHash_answer hallow]
    obtain ⟨hrow, hcascading⟩ := id hknows
    rcases afterCheck_canonical hhash hblock with ⟨hoff, hnext⟩ | ⟨hon, hnext⟩
    · rw [hnext]
      exact ⟨hrow, hoff, rfl, hcascading⟩
    · rw [hnext]
      exact not_pending.mpr ⟨by rw [astray_eq hrow, hon], hcascading⟩
  | @rewind checkpoint target reason =>
    obtain ⟨hanswer, hstates, hbase⟩ := @IndexerConfig.cascadeExec_updates H .factory o w .factory
      state (.rollbackTo target reason) (by simpa [reliable] using hallow) hstate
    exact factory_rewind h rfl hanswer hstates hbase
  | @look checkpoint target dependent rest =>
    obtain ⟨hrest, -⟩ := hknows.2.resolve_left fun hnil => List.cons_ne_nil _ _ hnil.1
    cases hrest
    have hfault : o.fault = none := by simpa [reliable] using hallow
    obtain ⟨hstates, hbase, -⟩ := @IndexerConfig.cascadeExec_findState H .factory o w .curves
    rw [IndexerConfig.cascadeExec_finds hfault] at hbase ⊢
    exact factory_look h hstates hbase
  | @pull checkpoint target dependent rest reason =>
    obtain ⟨-, hdependent, hrest, -⟩ := id hknows
    cases hdependent
    cases hrest
    obtain ⟨curves, hcurves⟩ := hbooks.rows .curves
    obtain ⟨hanswer, hstates, hbase⟩ := @IndexerConfig.cascadeExec_updates H .factory o w .curves
      curves (.rollbackTo target reason) (by simpa [reliable] using hallow) hcurves
    rw [hanswer]
    exact factory_pull h rfl rfl hstates hbase
  | @head checkpoint =>
    obtain ⟨hstates, hbase⟩ := @IndexerConfig.cascadeExec_other H _ .factory .head o w rfl rfl
    exact factory_head h hstates hbase
  | fetch =>
    refine h.other rfl rfl (fun _ _ => ⟨_, rfl⟩) ?_
    exact Phase.holds_afterFetch (K := (FactoryKnows canonical cfg.confirmationDepth · w))
      (not_pending.mp hknows).2 fun _ _ _ => hknows
  | hash =>
    refine h.other rfl rfl (fun _ _ => ⟨_, rfl⟩) ?_
    rw [blockHash_answer hallow]
    exact ⟨hknows, rfl⟩
  | reread =>
    refine h.other rfl rfl (fun _ _ => ⟨_, rfl⟩) ?_
    exact Phase.holds_afterReread (K := (FactoryKnows canonical cfg.confirmationDepth · w))
      (not_pending.mp hknows.1).2 hknows
  | @advance checkpoint batch reachedHash =>
    obtain ⟨hnot, hhash⟩ := id hknows
    have hon : offChain canonical state = false := by
      rw [← astray_eq hstate]
      exact (not_pending.mp hnot).1
    have hreached : offChain canonical
        ((StateUpdate.advance batch.reachedBlock reachedHash).apply state) = false :=
      offChain_recorded rfl hhash
    have hnext {v : CascadeWorld H} (hnot : ¬ Pending canonical v.tables.states v.base)
        (answer : Except Failure (IndexerState H)) : FactoryKnows canonical cfg.confirmationDepth
          (Phase.after (fun _ => .advanced checkpoint batch reachedHash) answer) v :=
      Phase.holds_after (K := (FactoryKnows canonical cfg.confirmationDepth · v))
        (not_pending.mp hnot).2 fun _ _ => hnot
    rcases @IndexerConfig.cascadeExec_updateState H .factory o w .factory state
      (.advance batch.reachedBlock reachedHash) hstate with ⟨-, hstates, hbase⟩ | ⟨hstates, hbase⟩
    · exact h.same hstates hbase (hnext hnot _)
    · obtain ⟨hleaves, hafter, hup, hpending⟩ := factory_update h hstate (hreached.trans hon.symm)
        (fun hoff => absurd hoff (Bool.eq_false_iff.mp hreached)) hstates hbase
      exact ⟨hleaves, hafter, hup, hnext (mt hpending.mp hnot) _⟩
  | resolve =>
    refine h.other rfl rfl (fun _ _ => ⟨_, rfl⟩) ?_
    exact Phase.holds_after (K := (FactoryKnows canonical cfg.confirmationDepth · w))
      (not_pending.mp hknows).2 fun _ _ => hknows
  | @recordError error =>
    rcases @IndexerConfig.cascadeExec_updateState H .factory o w .factory state (.recordError error)
      hstate with ⟨-, hstates, hbase⟩ | ⟨hstates, hbase⟩
    · exact h.same hstates hbase hknows
    · have hsame : offChain canonical ((StateUpdate.recordError error).apply state) =
          offChain canonical state := offChain_eq rfl rfl
      obtain ⟨hleaves, hafter, hup, -⟩ :=
        factory_update h hstate hsame (fun _ => rfl) hstates hbase
      exact ⟨hleaves, hafter, hup, (congrArg CascadeRows.cascading hbase).trans hknows⟩
  | recordFailedBlock =>
    exact @Holds.other H _ _ canonical _ .factory .idle w o _ (fun _ => .idle) h rfl rfl
      (fun _ _ => ⟨_, rfl⟩) hknows

end factory

/-- No write of the curve stream's checkpoint passes over a block that a rollback during its tick
took back. -/
def spares (s : CascadeRows) : Call H CascadeCall β → Bool
  | .updateState _ data => data.toBlock.all fun bound => s.stale.all fun block =>
    bound < block || s.rewound.all fun target => block ≤ target
  | _ => true

section curves

variable {cfg : IndexerConfig} {p : Phase H} {v w : CascadeWorld H} {o : Answers (CascadeReply H)}
  {checkpoint state : IndexerState H} {target bound : Nat}

theorem Excused.pending (h : Excused canonical w bound) {stream : IndexerStream}
    {data : StateUpdate H}
    (hspares : spares w.base (.updateState stream data : Call H CascadeCall _) = true)
    (hbound : data.toBlock = some bound) {block : Nat} (hblock : block ∈ w.base.stale)
    (hle : block ≤ bound) : Pending canonical w.tables.states w.base := by
  refine (h block hblock hle).resolve_right ?_
  rintro ⟨target, htarget, hlt⟩
  simp only [spares, hbound, Option.all_some, List.all_eq_true, Bool.or_eq_true,
    decide_eq_true_eq] at hspares
  rcases hspares block hblock with hpast | hkept
  · omega
  · exact absurd (hkept target htarget) (by omega)

theorem curves_load {answer : Except Failure (IndexerState H)}
    (h : Holds canonical depth .curves p w) (hstate : w.tables.states .curves = some state)
    (hstates : v.tables.states = w.tables.states)
    (hbase : v.base = { w.base with rewound := [], turn := w.base.turn.load answer })
    (hanswer : ∀ checkpoint, answer = .ok checkpoint → checkpoint = state) :
    Leaves canonical depth .curves w v ∧
      Holds canonical depth .curves (Phase.after Phase.afterLoad answer) v := by
  obtain ⟨hbooks, hbooted, -⟩ := h
  have hafter : Books canonical depth v := by
    rw [Books, hstates, hbase]
    exact { hbooks with }
  refine ⟨⟨fun _ => hafter, by rw [hstates], by rw [hbase], fun _ => by rw [hbase]; exact hbooted⟩,
    hafter, by rw [hbase]; exact hbooted, ?_⟩
  refine Phase.holds_afterLoad (K := (CurvesKnows canonical depth · v)) trivial ?_
  intro checkpoint hok
  cases hanswer checkpoint hok
  have hrow : v.tables.states .curves = some state := by rw [hstates, hstate]
  exact ⟨fun block hblock hle => (hafter.due state hrow block hblock hle).imp_left .inl, .inl hrow⟩

theorem curves_update (h : Holds canonical depth .curves p w)
    (hstates : v.tables.states = (w.tables.setState .curves state).states)
    (hbase : v.base = w.base ∨ v.base = w.base.check .curves)
    (hafter : Accounted canonical depth (w.tables.setState .curves state).states v.base) :
    Leaves canonical depth .curves w v ∧ Books canonical depth v ∧ v.base.booted = true := by
  have hafter : Books canonical depth v := by
    rw [Books, hstates]
    exact hafter
  have hbooted : v.base.booted = true := by
    rcases hbase with hbase | hbase
    · rw [hbase]
      exact h.2.1
    · rw [hbase]
      exact h.2.1
  refine ⟨⟨fun _ => hafter, by rw [hstates]; rfl, ?_, fun _ => hbooted⟩, hafter, hbooted⟩
  rcases hbase with hbase | hbase
  · rw [hbase]
  · rw [hbase]
    rfl

theorem curves_head {answer : Except Failure Nat}
    (h : Holds canonical depth .curves (.checked checkpoint) w)
    (hstates : v.tables.states = w.tables.states) (hbase : v.base = w.base.check .curves) :
    Leaves canonical depth .curves w v ∧
      Holds canonical depth .curves (Phase.after (fun _ => .checked checkpoint) answer) v := by
  obtain ⟨hbooks, hbooted, hexcused, hon⟩ := h
  have hafter : Books canonical depth v := by
    rw [Books, hstates, hbase]
    exact Accounted.checkCurves hbooks hon
  refine ⟨⟨fun _ => hafter, by rw [hstates], by rw [hbase]; rfl,
    fun _ => by rw [hbase]; exact hbooted⟩, hafter, by rw [hbase]; exact hbooted, ?_⟩
  cases answer with
  | error _ => trivial
  | ok _ =>
    simp only [Phase.after, Knows, CurvesKnows, Excused, Threatened, hstates, hbase]
    exact ⟨hexcused, hon⟩

theorem curves_own {call : CascadeCall Unit} {next : Except Failure Unit → Phase H}
    (h : Holds canonical depth .curves p w)
    (hbooks : Accounted canonical depth w.tables.states (cascadeBackend.ext call o w.base).2)
    (hsame : (cascadeBackend.ext call o w.base).2.cascading = w.base.cascading ∧
      (cascadeBackend.ext call o w.base).2.booted = w.base.booted)
    (hfailed : ∀ error, next (.error error) = .idle)
    (hnext : ∀ v : CascadeWorld H, v.tables.states = w.tables.states →
      v.base = (cascadeBackend.ext call o w.base).2 → ∀ answer,
        CurvesKnows canonical depth (next answer) v) :
    Leaves canonical depth .curves w (cascadeExec .curves (.ext call) o w).2 ∧
      Holds canonical depth .curves (next (cascadeExec .curves (.ext call) o w).1)
        (cascadeExec .curves (.ext call) o w).2 := by
  obtain ⟨hstates, ⟨⟨error, herror⟩, hbase⟩ | hbase⟩ :=
    @IndexerConfig.cascadeExec_ext H Unit .curves o w call
  · rw [herror]
    refine h.same hstates hbase ?_
    rw [hfailed]
    trivial
  · have hafter : Books canonical depth (cascadeExec .curves (.ext call) o w).2 := by
      rw [Books, hstates, hbase]
      exact hbooks
    have hbooted : (cascadeExec .curves (.ext call) o w).2.base.booted = true := by
      rw [hbase, hsame.2]
      exact h.2.1
    exact ⟨⟨fun _ => hafter, by rw [hstates], by rw [hbase, hsame.1], fun _ => hbooted⟩, hafter,
      hbooted, hnext _ hstates hbase _⟩

theorem curves_step {c : Call H CascadeCall β} {next : Except Failure β → Phase H}
    (hc : Awaits (cfg.slotScanner .curves) p c next)
    (h : Holds canonical cfg.confirmationDepth .curves p w)
    (hallow : reliable canonical .curves o c = true) (hspares : spares w.base c = true) :
    Leaves canonical cfg.confirmationDepth .curves w (cascadeExec .curves c o w).2 ∧
      Holds canonical cfg.confirmationDepth .curves (next (cascadeExec .curves c o w).1)
        (cascadeExec .curves c o w).2 := by
  obtain ⟨hbooks, hbooted, hknows⟩ := id h
  obtain ⟨state, hstate⟩ := hbooks.rows .curves
  replace hstate : w.tables.states .curves = some state := hstate
  cases hc with
  | load =>
    obtain ⟨hstates, hbase, hanswer⟩ :=
      @IndexerConfig.cascadeExec_upsertState H .curves o w .curves state cfg.startBlock hstate
    exact curves_load h hstate hstates hbase hanswer
  | @check checkpoint hhash hblock =>
    refine h.other rfl rfl (fun _ _ => ⟨_, rfl⟩) ?_
    rw [blockHash_answer hallow]
    obtain ⟨hunchecked, hrow⟩ := id hknows
    rcases afterCheck_canonical hhash hblock with ⟨hoff, hnext⟩ | ⟨hon, hnext⟩
    · rw [hnext]
      intro block hblock hle
      exact (hunchecked block hblock (by omega)).resolve_right fun hdeep =>
        absurd hdeep.2 (Nat.not_lt.mpr hle)
    · rw [hnext]
      refine ⟨fun block hblock hle => ?_, ?_⟩
      · exact (hunchecked block hblock hle).resolve_right fun hdeep =>
        Bool.false_ne_true (hon.symm.trans hdeep.1)
      · exact hrow.elim (fun hrow => by rw [astray_eq hrow, hon]) id
  | @rewind checkpoint target reason =>
    have hnext (answer : Except Failure (IndexerState H)) (v : CascadeWorld H) :
        CurvesKnows canonical cfg.confirmationDepth
          (Phase.after (fun _ => .rewound checkpoint target []) answer) v := by
      cases answer <;> trivial
    have hmoved : Accounted canonical cfg.confirmationDepth (w.tables.setState .curves
        ((StateUpdate.rollbackTo target reason).apply state)).states w.base :=
      Accounted.moveCurves hbooks
        (fun block hblock hle => .inl (Excused.pending hknows hspares rfl hblock hle))
        fun _ => offChain_unrecorded rfl
    rcases @IndexerConfig.cascadeExec_updateState H .curves o w .curves state
      (.rollbackTo target reason) hstate with ⟨-, hstates, hbase⟩ | ⟨hstates, hbase⟩
    · exact h.same hstates hbase (hnext _ _)
    · obtain ⟨hleaves, hafter, hup⟩ := curves_update h hstates (.inr hbase) (by
        rw [hbase]
        refine hmoved.checkCurves ?_
        rw [astray_eq (w.tables.setState_states_self ..), offChain_unrecorded rfl])
      exact ⟨hleaves, hafter, hup, hnext _ _⟩
  | look => cases hknows
  | pull => exact hknows.elim
  | head =>
    obtain ⟨hstates, hbase⟩ := @IndexerConfig.cascadeExec_other H _ .curves .head o w rfl rfl
    exact curves_head h hstates hbase
  | fetch =>
    refine h.other rfl rfl (fun _ _ => ⟨_, rfl⟩) ?_
    exact Phase.holds_afterFetch (K := (CurvesKnows canonical cfg.confirmationDepth · w)) trivial
      fun _ _ _ => hknows
  | hash =>
    refine h.other rfl rfl (fun _ _ => ⟨_, rfl⟩) ?_
    rw [blockHash_answer hallow]
    exact ⟨hknows, rfl⟩
  | reread =>
    refine h.other rfl rfl (fun _ _ => ⟨_, rfl⟩) ?_
    exact Phase.holds_afterReread (K := (CurvesKnows canonical cfg.confirmationDepth · w)) trivial
      hknows
  | @advance checkpoint batch reachedHash =>
    obtain ⟨hexcused, hhash⟩ := id hknows
    have hnext (answer : Except Failure (IndexerState H)) (v : CascadeWorld H) :
        CurvesKnows canonical cfg.confirmationDepth
          (Phase.after (fun _ => .advanced checkpoint batch reachedHash) answer) v := by
      cases answer <;> trivial
    have hmoved : Accounted canonical cfg.confirmationDepth (w.tables.setState .curves
        ((StateUpdate.advance batch.reachedBlock reachedHash).apply state)).states w.base :=
      Accounted.moveCurves hbooks
        (fun block hblock hle => .inl (Excused.pending hexcused hspares rfl hblock hle))
        fun _ => offChain_recorded rfl hhash
    rcases @IndexerConfig.cascadeExec_updateState H .curves o w .curves state
      (.advance batch.reachedBlock reachedHash) hstate with ⟨-, hstates, hbase⟩ | ⟨hstates, hbase⟩
    · exact h.same hstates hbase (hnext _ _)
    · obtain ⟨hleaves, hafter, hup⟩ := curves_update h hstates (.inl hbase) (by
        rw [hbase]
        exact hmoved)
      exact ⟨hleaves, hafter, hup, hnext _ _⟩
  | resolve =>
    refine h.other rfl rfl (fun _ _ => ⟨_, rfl⟩) ?_
    cases (cascadeExec .curves _ o w).1 <;> trivial
  | @recordError error =>
    have hsame : offChain canonical ((StateUpdate.recordError error).apply state) =
        offChain canonical state := offChain_eq rfl rfl
    have hmoved : Accounted canonical cfg.confirmationDepth (w.tables.setState .curves
        ((StateUpdate.recordError error).apply state)).states w.base :=
      Accounted.moveCurves hbooks
        (fun block hblock hle => by rw [hsame]; exact hbooks.due state hstate block hblock hle)
        fun hchecked => by rw [hsame, ← astray_eq hstate]; exact hbooks.curves hchecked
    rcases @IndexerConfig.cascadeExec_updateState H .curves o w .curves state (.recordError error)
      hstate with ⟨-, hstates, hbase⟩ | ⟨hstates, hbase⟩
    · exact h.same hstates hbase trivial
    · obtain ⟨hleaves, hafter, hup⟩ := curves_update h hstates (.inl hbase) (by
        rw [hbase]
        exact hmoved)
      exact ⟨hleaves, hafter, hup, trivial⟩
  | recordFailedBlock =>
    exact @Holds.other H _ _ canonical _ .curves .idle w o _ (fun _ => .idle) h rfl rfl
      (fun _ _ => ⟨_, rfl⟩) trivial

end curves

section rules

variable (canonical) (cfg : IndexerConfig)

def crashProtocol (slot : Slot) :
    Protocol (Call H CascadeCall) Failure (Answers (CascadeReply H)) (CascadeWorld H) where
  exec := cascadeExec slot
  allow call o w := reliable canonical slot o call = true ∧
    (slot = .curves → spares w.base call = true)
  rely v w := Books canonical cfg.confirmationDepth v →
    Leaves canonical cfg.confirmationDepth slot.other v w
  guar := Leaves canonical cfg.confirmationDepth slot
  keep := Books canonical cfg.confirmationDepth
  refl w _ := Leaves.refl _ w
  trans h h' hv := (h hv).trans (h' ((h hv).books hv))

variable {canonical cfg} {slot : Slot}

theorem Holds.kept (p : Phase H) :
    (crashProtocol canonical cfg slot).Kept (Holds canonical cfg.confirmationDepth slot p) where
  stable h hleaves := ⟨(hleaves h.1).books h.1, (hleaves h.1).booted h.2.1,
    h.2.2.leaves h.1 (hleaves h.1)⟩
  keep h := h.1

theorem factory_tickRule :
    TickRule (crashProtocol canonical cfg .factory) (cfg.slotScanner .factory)
      (Holds canonical cfg.confirmationDepth .factory) fun _ => True where
  kept := Holds.kept
  step hc _ _ hs hallow := factory_step hc hs hallow.1
  passes hpass h := by
    obtain ⟨hbooks, hbooted, hknows⟩ := id h
    cases hpass with
    | @unrecorded checkpoint hunrecorded =>
      refine ⟨hbooks, hbooted, not_pending.mpr ⟨?_, hknows.2⟩⟩
      rw [astray_eq hknows.1]
      rcases hunrecorded with hhash | hblock
      · exact offChain_unrecorded hhash
      · simp [offChain, hblock]
    | cascaded =>
      refine ⟨hbooks, hbooted, ?_⟩
      rcases hknows.2 with ⟨-, hcascading⟩ | ⟨hnil, -⟩
      · exact hcascading
      · cases hnil
    | uncapped _ _ => exact h
    | capped _ _ => exact h
    | stop hp => cases hp <;> exact ⟨hbooks, hbooted, (not_pending.mp hknows).2⟩
  settled _ _ := trivial
  deleteAbove checkpoint target := by
    refine .await (Holds.kept _) (fun r => Holds.kept _) fun w o hw _ => ?_
    exact factory_delete hw
  maxBlock _ _ hmax := nomatch hmax
  addresses checkpoint boundary := .done (Holds.kept _) fun _ hs => hs
  process checkpoint batch reachedHash := by
    refine .await (Holds.kept _) (fun r => Holds.kept _) fun w o hw _ => ?_
    exact factory_store hw

theorem curves_tickRule :
    TickRule (crashProtocol canonical cfg .curves) (cfg.slotScanner .curves)
      (Holds canonical cfg.confirmationDepth .curves) fun _ => True where
  kept := Holds.kept
  step hc _ _ hs hallow := curves_step hc hs hallow.1 (hallow.2 rfl)
  passes hpass h := by
    obtain ⟨hbooks, hbooted, hknows⟩ := id h
    cases hpass with
    | @unrecorded checkpoint hunrecorded =>
      have hon : offChain canonical checkpoint = false := by
        rcases hunrecorded with hhash | hblock
        · exact offChain_unrecorded hhash
        · simp [offChain, hblock]
      refine ⟨hbooks, hbooted, fun block hblock hle => ?_, ?_⟩
      · exact (hknows.1 block hblock hle).resolve_right fun hdeep =>
        Bool.false_ne_true (hon.symm.trans hdeep.1)
      · exact hknows.2.elim (fun hrow => by rw [astray_eq hrow, hon]) id
    | cascaded => exact ⟨hbooks, hbooted, trivial⟩
    | uncapped hcap _ => cases hcap
    | capped _ _ => exact h
    | stop hp => exact ⟨hbooks, hbooted, trivial⟩
  settled _ _ := trivial
  deleteAbove checkpoint target := by
    refine .await (Holds.kept _) (fun r => Holds.kept _) fun w o hw _ => ?_
    refine curves_own hw (Accounted.deleteTradesAbove hw.1) ⟨rfl, rfl⟩ (fun _ => rfl)
      fun v hstates hbase answer => ?_
    cases answer with
    | error _ => trivial
    | ok _ =>
      simp only [Phase.after, CurvesKnows, Excused, Threatened, hstates, hbase]
      exact hw.2.2
  maxBlock checkpoint maxBlock hmax := by
    cases hmax
    refine .bind (Q := fun r => Holds canonical cfg.confirmationDepth .curves
      (Phase.after (fun factory : IndexerState H =>
        .ceiled checkpoint (some factory.lastProcessedBlock)) r)) ?_ (fun _ => ?_) fun _ _ hs => hs
    · refine .await (Holds.kept _) (fun r => Holds.kept _) fun w o hw _ => ?_
      obtain ⟨state, hstate⟩ := hw.1.rows .factory
      obtain ⟨hstates, hbase, -⟩ :=
        @IndexerConfig.cascadeExec_upsertState H .curves o w .factory state cfg.startBlock hstate
      have hnext (answer : Except Failure (IndexerState H)) :
          CurvesKnows canonical cfg.confirmationDepth (Phase.after
            (fun factory => .ceiled checkpoint (some factory.lastProcessedBlock)) answer) w := by
        cases answer with
        | error _ => trivial
        | ok _ => exact hw.2.2.1
      exact hw.same hstates hbase (hnext _)
    · exact .done (Holds.kept _) fun _ hs => hs
  addresses checkpoint boundary := .done (Holds.kept _) fun _ hs => hs
  process checkpoint batch reachedHash := by
    refine .await (Holds.kept _) (fun r => Holds.kept _) fun w o hw _ => ?_
    refine curves_own hw (Accounted.storeTrades hw.1) ⟨rfl, rfl⟩ (fun _ => rfl)
      fun v hstates hbase answer => ?_
    cases answer with
    | error _ => trivial
    | ok _ =>
      refine ⟨fun block hblock hle => ?_, hw.2.2.2⟩
      rw [hbase] at hblock
      obtain ⟨hmem, hpast⟩ := List.mem_filter.mp hblock
      have hold : block ≤ checkpoint.lastProcessedBlock := by
        simp only [Bool.not_eq_true', Bool.and_eq_false_iff, decide_eq_false_iff_not] at hpast
        omega
      rw [Threatened, hstates, hbase]
      exact hw.2.2.1 block hmem hold

end rules

section boot

variable {cfg : IndexerConfig} {v w : CascadeWorld H}

variable (canonical depth) in
structure Restarted (v w : CascadeWorld H) : Prop where
  books : Books canonical depth w
  base : w.base = v.base
  factory : w.tables.states .factory = v.tables.states .factory
  curves : w.tables.states .curves = v.tables.states .curves ∨
    astray canonical w.tables.states .curves = false

variable (canonical depth) in
def bootProtocol (v : CascadeWorld H) :
    Protocol (Call H CascadeCall) Failure (Answers (CascadeReply H)) (CascadeWorld H) where
  exec := cascadeBackend.exec
  allow _ _ _ := True
  rely w w' := w = w'
  guar _ _ := True
  keep := Restarted canonical depth v
  refl _ := rfl
  trans := Eq.trans

theorem Restarted.kept {Q : CascadeWorld H → Prop}
    (hQ : ∀ w, Q w → Restarted canonical depth v w) : (bootProtocol canonical depth v).Kept Q where
  stable h hsame := hsame ▸ h
  keep h := hQ _ h

theorem getOrCreate_triple (slot : Slot) {stream : IndexerStream} {startBlock : Nat}
    (hslot : slot.stream = stream) :
    (bootProtocol canonical depth v).Triple (Restarted canonical depth v)
      (Checkpoints.getOrCreate stream startBlock) fun _ => Restarted canonical depth v := by
  refine .await (Restarted.kept fun _ => id)
    (fun _ => Restarted.kept fun _ => id) fun w o hw _ => ?_
  obtain ⟨state, hstate⟩ := hw.books.rows slot
  rw [hslot] at hstate
  refine ⟨trivial, ?_⟩
  have hsame : (cascadeBackend.exec (.upsertState stream startBlock) o w).2 = w :=
    (Backend.exec_upsertState _ hstate).1
  simp only [bootProtocol, hsame]
  exact hw

theorem earliest_triple :
    (bootProtocol canonical depth v).Triple (Restarted canonical depth v)
      (Async.await (.ext .earliestLaunchBlock)) fun r w => Restarted canonical depth v w ∧
        ∀ earliest, r = .ok (some earliest) → ∃ launch ∈ v.base.tokens,
          launch.launchBlock = earliest := by
  refine .await (Restarted.kept fun _ => id) (fun _ => Restarted.kept fun _ h => h.1)
    fun w o hw _ => ⟨trivial, ?_⟩
  simp only [bootProtocol]
  cases hfault : o.fault with
  | none =>
    rw [Backend.exec_ok _ hfault]
    refine ⟨hw, fun earliest hearliest => ?_⟩
    have hmin : (w.base.tokens.map LaunchRow.launchBlock).min? = some earliest :=
      Except.ok.inj hearliest
    rw [← hw.base]
    exact List.mem_map.mp (List.min?_mem hmin)
  | some fault =>
    rw [Backend.exec_fault _ hfault]
    refine ⟨?_, nofun⟩
    split
    · exact hw
    · exact hw

theorem fastForward_triple (hdown : v.base.booted = false) {launch : LaunchRow}
    (hlaunch : launch ∈ v.base.tokens) (hpos : 0 < launch.launchBlock) {reason : String} :
    (bootProtocol canonical depth v).Triple (Restarted canonical depth v)
      (Checkpoints.fastForward .curves (launch.launchBlock - 1) reason)
      fun _ => Restarted canonical depth v := by
  have hkept : (bootProtocol canonical depth v).Kept (Restarted canonical depth v) :=
    Restarted.kept fun _ => id
  refine .bind (.await hkept (fun _ => hkept) fun w o hw _ => ⟨trivial, ?_⟩) (fun current => ?_)
    fun _ _ hw => hw
  · have hsame : (cascadeBackend.exec (.findState .curves) o w).2 = w :=
      (Backend.exec_findState _).1
    simp only [bootProtocol, hsame]
    exact hw
  · cases current with
    | none => exact .done hkept fun _ hw => hw
    | some current =>
      dsimp only
      split
      · exact .done hkept fun _ hw => hw
      · refine .bind (.await hkept (fun _ => hkept) fun w o hw _ => ⟨trivial, ?_⟩)
          (fun _ => .done hkept fun _ hw => hw) fun _ _ hw => hw
        obtain ⟨state, hstate⟩ := hw.books.rows .curves
        replace hstate : w.tables.states .curves = some state := hstate
        have hlow : Low w.base := hw.books.low (.inr (.inr (by rw [hw.base, hdown])))
        have hmoved : Accounted canonical depth (w.tables.setState .curves
            ((StateUpdate.fastForward (launch.launchBlock - 1) reason).apply state)).states w.base := by
          refine Accounted.moveCurves hw.books (fun block hblock hle => ?_)
            fun _ => offChain_unrecorded rfl
          have hnext := hlow launch (by rw [hw.base]; exact hlaunch) block hblock
          have hle : block ≤ launch.launchBlock - 1 := hle
          omega
        simp only [bootProtocol]
        rw [Backend.exec_updateState _ hstate]
        split
        · refine ⟨hmoved, hw.base, hw.factory, .inr ?_⟩
          rw [astray_eq (Tables.setState_states_self ..), offChain_unrecorded rfl]
        · exact hw

theorem startup_triple (hdown : v.base.booted = false) :
    (bootProtocol canonical depth v).Triple (Restarted canonical depth v)
      (cfg.startup (Async.await (.ext .earliestLaunchBlock)))
      fun _ => Restarted canonical depth v := by
  have hkept : (bootProtocol canonical depth v).Kept (Restarted canonical depth v) :=
    Restarted.kept fun _ => id
  refine .bind (getOrCreate_triple .factory rfl) (fun _ => ?_) fun _ _ hw => hw
  refine .bind (getOrCreate_triple .curves rfl) (fun _ => ?_) fun _ _ hw => hw
  refine .bind earliest_triple (fun earliest => ?_) fun _ _ hw => hw.1
  cases earliest with
  | none => exact .done (Restarted.kept fun _ h => h.1) fun _ hw => hw.1
  | some earliest =>
    dsimp only
    split
    · rename_i hpos
      intro w hw
      obtain ⟨launch, hlaunch, rfl⟩ := hw.2 earliest rfl
      exact Protocol.Triple.bind (fastForward_triple hdown hlaunch hpos)
        (fun _ => .done hkept fun _ h => h) (fun _ _ h => h) w hw.1
    · exact .done (Restarted.kept fun _ h => h.1) fun _ hw => hw.1

theorem Restarted.leaves (h : Restarted canonical depth v w) {x : CascadeWorld H}
    (htables : x.tables.states = w.tables.states) {booted : Bool}
    (hbase : x.base = { v.base with booted }) (hbooted : v.base.booted = true → booted = true)
    (slot : Slot) : Leaves canonical depth slot v x := by
  have hbooks : Books canonical depth x := by
    rw [Books, htables, hbase, ← h.base]
    refine { h.books with low := ?_ }
    rintro (hastray | hreorging | hdown)
    · exact h.books.low (.inl hastray)
    · exact h.books.low (.inr (.inl hreorging))
    · refine h.books.low (.inr (.inr (Bool.eq_false_iff.mpr fun hup => ?_)))
      exact Bool.false_ne_true (hdown.symm.trans (hbooted (h.base ▸ hup)))
  have hup (hv : v.base.booted = true) : x.base.booted = true := by
    rw [hbase]
    exact hbooted hv
  cases slot with
  | factory =>
    refine .of_threatened (fun _ => hbooks) (by rw [hbase]) (fun _ block _ hthreat => ?_)
      (by rw [astray, htables]; exact h.curves) hup
    simpa only [Threatened, Pending, astray, htables, h.factory, hbase] using hthreat
  | curves => exact ⟨fun _ => hbooks, by rw [htables, h.factory], by rw [hbase], hup⟩

theorem boot_leaves (hbooks : Books canonical depth v) (hdown : v.base.booted = false)
    (answers : List (Answers (CascadeReply H))) (slot : Slot) :
    Leaves canonical depth slot v (cfg.boot answers v) := by
  have hsafe := (@startup_triple H _ canonical depth cfg v hdown) v ⟨hbooks, rfl, rfl, .inl rfl⟩
  have hdrive := (hsafe.drive fun o (_ : o ∈ answers) _ _ _ => trivial).1
  simp only [bootProtocol] at hdrive
  unfold IndexerConfig.boot
  generalize Async.drive _ _ answers v = driven at hdrive ⊢
  obtain ⟨result, w⟩ := driven
  dsimp only at hdrive ⊢
  split
  · exact hdrive.leaves (x := { w with base := { w.base with booted := true } }) rfl
      (by rw [hdrive.base]) (fun _ => rfl) slot
  · exact hdrive.leaves rfl hdrive.base id slot

end boot

section runs

variable (canonical) (cfg : IndexerConfig)

def rollbackRun (c : CascadeState H) : CascadeLabel H → Bool
  | .call slot o => c.pending slot fun call => reliable canonical slot o call
  | .crash => astray canonical c.world.tables.states .factory || c.world.base.reorging
  | _ => true

/-- The curve stream's own reorg check makes up for a cascade that is cut off. -/
def selfCorrecting (w : CascadeWorld H) : Bool :=
  w.base.cascading.isNone || (w.tables.states .curves).all fun state =>
    w.base.stale.all fun block =>
    state.lastProcessedBlock < block ||
      offChain canonical state && state.lastProcessedBlock - cfg.confirmationDepth < block

def completed (c : CascadeState H) : CascadeLabel H → Bool
  | .call .curves _ => c.pending .curves fun call => spares c.world.base call
  | .crash => selfCorrecting canonical cfg c.world
  | _ => true

structure Started (w : CascadeWorld H) : Prop where
  rows : ∀ slot : Slot, ∃ state, w.tables.states slot.stream = some state
  placed : Placed w.base.tokens w.base.trades
  stale : w.base.stale = []
  cascading : w.base.cascading = none
  checked : ∀ slot, w.base.checked slot = false

/-- Once both streams have passed a reorg check, the curve stream is to process every block whose
rows a rollback took. -/
def Redone (w : CascadeWorld H) : Prop :=
  (∀ slot, w.base.checked slot = true) → ∀ state, w.tables.states .curves = some state →
    ∀ block ∈ w.base.stale, state.lastProcessedBlock < block

variable {canonical cfg}

theorem Accounted.started {w : CascadeWorld H} (h : Started w) : Books canonical depth w where
  rows := h.rows
  placed := h.placed
  above _ _ _ block hblock := by rw [h.stale] at hblock; cases hblock
  cascading _ hsome := nomatch h.cascading.symm.trans hsome
  low _ launch _ block hblock := by rw [h.stale] at hblock; cases hblock
  due _ _ block hblock := by rw [h.stale] at hblock; cases hblock
  factory hchecked := nomatch (h.checked .factory).symm.trans hchecked
  curves hchecked := nomatch (h.checked .curves).symm.trans hchecked

theorem Accounted.redone {w : CascadeWorld H} (h : Books canonical depth w) : Redone w := by
  intro hchecked state hstate block hblock
  by_contra hle
  rcases h.due state hstate block hblock (by omega) with hpending | ⟨hoff, -⟩
  · exact h.factory (hchecked .factory) hpending
  · have hon := h.curves (hchecked .curves)
    rw [astray_eq hstate, hoff] at hon
    cases hon

theorem Accounted.crashed {w : CascadeWorld H} (h : Books canonical cfg.confirmationDepth w)
    (hrollback : astray canonical w.tables.states .factory = true ∨ w.base.reorging = true)
    (hself : selfCorrecting canonical cfg w = true) :
    Accounted canonical cfg.confirmationDepth w.tables.states w.base.crashed where
  rows := h.rows
  placed := h.placed
  above := h.above
  cascading := nofun
  low _ := h.low (hrollback.imp_right .inl)
  due state hstate block hblock hle := by
    rcases h.due state hstate block hblock hle with (hastray | hcascading) | hdeep
    · exact .inl (.inl hastray)
    · simp only [selfCorrecting, hstate, Option.all_some, Bool.or_eq_true, Option.isNone_iff_eq_none,
        List.all_eq_true, decide_eq_true_eq, Bool.and_eq_true] at hself
      rcases hself.resolve_left hcascading block hblock with hpast | hdeep
      · omega
      · exact .inr hdeep
    · exact .inr hdeep
  factory := nofun
  curves := nofun

def crashOutline : (IndexerConfig.cascadeSystem cfg (H := H)).Outline
    fun c l => rollbackRun canonical c l = true ∧ completed canonical cfg c l = true where
  protocol := crashProtocol canonical cfg
  idle slot w := Books canonical cfg.confirmationDepth w ∧
    (slot = .factory → w.base.cascading = none)
  post slot := TickRule.Outcome (Holds canonical cfg.confirmationDepth slot) fun _ => True
  exec _ _ _ _ _ := rfl
  allow := @fun c slot o β k next hok htask => by
    have hreliable := hok.1
    simp only [rollbackRun, System.Config.pending_eq htask] at hreliable
    refine ⟨hreliable, ?_⟩
    rintro rfl
    have hspares := hok.2
    simp only [completed, System.Config.pending_eq htask] at hspares
    exact hspares
  peer hne hgives := by
    simp only [crashProtocol, Slot.other_eq hne.symm]
    exact fun _ => hgives
  rest := @fun slot s t h hgives => by
    refine ⟨(hgives h.1).books h.1, ?_⟩
    rintro rfl
    exact (CurvesLeaves.cascading (hgives h.1)).trans (h.2 rfl)
  start := @fun c slot _ hready hidle => by
    refine ⟨?_, fun _ _ _ => Leaves.refl _ _⟩
    cases slot with
    | factory => exact factory_tickRule.tick _ ⟨hidle.1, hready, hidle.2 rfl⟩
    | curves => exact curves_tickRule.tick _ ⟨hidle.1, hready, trivial⟩
  finish := @fun slot r s h => by
    refine ⟨⟨h.1.1, ?_⟩, fun _ _ _ => Leaves.refl _ _⟩
    rintro rfl
    exact h.1.2.2
  env := @fun c answers _ slot => by
    intro hbooks
    simp only [IndexerConfig.cascadeSystem]
    split
    · exact Leaves.refl _ _
    · rename_i hdown
      exact boot_leaves hbooks (by simpa using hdown) answers _
  crash := @fun c hok hall slot => by
    have hbooks : Books canonical cfg.confirmationDepth c.world := by
      by_cases htask : c.tasks slot = none
      · exact ((hall slot).1 htask).1
      · exact (hall slot).2 htask
    have hrollback : astray canonical c.world.tables.states .factory = true ∨
        c.world.base.reorging = true := by
      simpa [rollbackRun] using hok.1
    have hafter := Accounted.crashed hbooks hrollback hok.2
    exact ⟨hafter, fun _ => rfl⟩

theorem crash_leaves_no_stale {w : CascadeWorld H} (hw : Started w) {ls : List (CascadeLabel H)}
    {c : CascadeState H}
    (hrun : (IndexerConfig.cascadeSystem cfg).Run (fun c l => rollbackRun canonical c l = true ∧
      completed canonical cfg c l = true) (.rest w) ls c) : Redone c.world := by
  have hbooks : Books canonical cfg.confirmationDepth w := Accounted.started hw
  have hinv := crashOutline.inv_run
    (crashOutline.inv_rest fun slot => ⟨hbooks, fun _ => hw.cascading⟩) hrun
  exact Accounted.redone (crashOutline.keep_of_inv (i := .curves) hinv fun _ hs => hs.1)

section sample

def crashStart : CascadeWorld Nat where
  tables := (Tables.empty.setState .factory (IndexerConfig.sampleCheckpoint 5 (some 0))).setState
    .curves (IndexerConfig.sampleCheckpoint 5 (some 1))
  base := { IndexerConfig.sampleRows with trades := [IndexerConfig.sampleTrade] }

theorem crashStart_started : Started crashStart where
  rows slot := by cases slot <;> exact ⟨_, rfl⟩
  placed := ⟨by decide, by decide⟩
  stale := rfl
  cascading := rfl
  checked _ := rfl

def crashAnswer : Answers (CascadeReply Nat) :=
  { IndexerConfig.cascadeAnswer with
    ext := { hash := some 1, launches := [{ token := 7, launchBlock := 5 }]
             trades := [IndexerConfig.sampleTrade] } }

def crashCalls (slot : Slot) (count : Nat) : List (CascadeLabel Nat) :=
  List.replicate count (.call slot crashAnswer)

def crashRun (calls factory curves : Nat) : List (CascadeLabel Nat) :=
  .start .factory :: crashCalls .factory calls ++ .crash :: .env (List.replicate 5 crashAnswer) ::
    .start .factory :: crashCalls .factory factory ++ .finish .factory ::
    .start .curves :: crashCalls .curves curves ++ [.finish .curves]

def bothTicked (lastProcessedBlock : Nat) (c : CascadeState Nat) : Bool :=
  (c.tasks .factory).isNone && (c.tasks .curves).isNone && c.world.base.checked .factory &&
    c.world.base.checked .curves && c.world.base.stale == [5, 5] && c.world.base.trades == [] &&
    (c.world.tables.states .curves).any fun state => state.lastProcessedBlock == lastProcessedBlock

end sample

theorem crash_leaves_no_stale_sample :
    ∃ c : CascadeState Nat, bothTicked 4 c = true ∧ Redone c.world := by
  obtain ⟨c, hrun, hdone⟩ : ∃ c, (IndexerConfig.cascadeSystem IndexerConfig.cascadeSample).Run
      (fun c l => rollbackRun (fun _ => 1) c l = true ∧
        completed (fun _ => 1) IndexerConfig.cascadeSample c l = true)
      (.rest crashStart) (crashRun 3 6 3) c ∧ bothTicked 4 c = true :=
    System.Run.exists_of_any (by decide)
  exact ⟨c, hdone, crash_leaves_no_stale crashStart_started hrun⟩

/-- After `rollbackTo` nothing tells that the cascade is still to come. -/
theorem crash_before_cascade : ∃ c : CascadeState Nat,
    (IndexerConfig.cascadeSystem IndexerConfig.cascadeSample).Run
        (fun c l => rollbackRun (fun _ => 1) c l = true) (.rest crashStart) (crashRun 4 8 4) c ∧
      c.tasks .factory = none ∧ c.tasks .curves = none ∧ ¬ Redone c.world := by
  obtain ⟨c, hrun, hdone⟩ : ∃ c, (IndexerConfig.cascadeSystem IndexerConfig.cascadeSample).Run
      (fun c l => rollbackRun (fun _ => 1) c l = true) (.rest crashStart) (crashRun 4 8 4) c ∧
        bothTicked 5 c = true :=
    System.Run.exists_of_any (by decide)
  simp only [bothTicked, Bool.and_eq_true, Option.isNone_iff_eq_none, beq_iff_eq,
    Option.any_eq_true] at hdone
  obtain ⟨⟨⟨⟨⟨⟨hfactory, hcurves⟩, hchecked⟩, hchecked'⟩, hstale⟩, -⟩, state, hstate, hlast⟩ := hdone
  refine ⟨c, hrun, hfactory, hcurves, fun hredone => ?_⟩
  have hlt := hredone (by rintro (_ | _) <;> assumption) state hstate 5 (by simp [hstale])
  omega

end runs

end CascadeCrash

end Stunks.Indexer
