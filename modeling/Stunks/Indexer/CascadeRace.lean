import Stunks.Indexer.Cascade

namespace Stunks.Indexer

open Database

variable {H β : Type}

namespace CascadeRows

def covers (s : CascadeRows) (target bound : Nat) : Bool :=
  (s.processed.any fun window => window.1 ≤ target + 1 && bound ≤ window.2) &&
    s.lost.all fun trade => bound < trade.blockNumber

def clears (s : CascadeRows) (target bound : Nat) : Bool := bound ≤ target || s.covers target bound

/-- The tick may advance after a rollback to `target` that was cascaded since it began: it read its
ceiling after the factory's checkpoint was moved back, the source reached no further than `target`,
or it processed all that lies above `target` after that move, with no trade lost from there. -/
def caught (s : CascadeRows) (target : Nat) : Bool :=
  s.turn.ceiled || s.turn.reached ≤ target ||
    (s.turn.loaded ≤ target && s.turn.processed &&
      s.lost.all fun trade => s.turn.reached < trade.blockNumber)

/-- No tick of the curve stream goes back on a rollback that came while it was under way. -/
def heeds (s : CascadeRows) : Call H CascadeCall β → Bool
  | .updateState _ (.advance _ _) => s.rewound.all s.caught
  | .updateState _ (.rollbackTo bound _) => s.rewound.all fun target => bound ≤ target
  | _ => true

def Fresh (s : CascadeRows) : Prop := s.lost = [] ∧ s.cascading = none ∧ s.cascaded = none

def Rises (s : CascadeRows) (bound : Nat) : Prop :=
  ∀ target, s.cascaded = some target → s.clears target bound = true ∨ target ∈ s.rewound

def Moved (s : CascadeRows) (target : Nat) : Prop :=
  s.cascading = some target ∨ s.cascaded = some target

structure Below (s : CascadeRows) (bound : Nat) : Prop where
  missed : ∀ target, s.cascaded = some target → bound ≤ target ∨ target ∈ s.rewound
  ceiled : s.turn.ceiled = true → ∀ target, s.Moved target → bound ≤ target

structure Reaches (s : CascadeRows) (start stop : Nat) : Prop where
  below : s.Below stop
  loaded : s.turn.loaded = start
  reached : s.turn.reached = stop

structure Handed (s : CascadeRows) (start stop : Nat) : Prop extends Reaches s start stop where
  processed : s.turn.processed = true → (start + 1, stop) ∈ s.processed

variable {s : CascadeRows} {target bound bound' start stop : Nat}

theorem clears_mono (h : s.clears target bound = true) (hle : bound' ≤ bound) :
    s.clears target bound' = true := by
  simp only [clears, covers, Bool.or_eq_true, Bool.and_eq_true, decide_eq_true_eq, List.any_eq_true,
    List.all_eq_true] at h ⊢
  rcases h with h | ⟨⟨window, hwindow, hfrom, hto⟩, hlost⟩
  · exact .inl (hle.trans h)
  · exact .inr ⟨⟨window, hwindow, hfrom, hle.trans hto⟩,
      fun trade htrade => hle.trans_lt (hlost trade htrade)⟩

theorem Rises.mono (h : s.Rises bound) (hle : bound' ≤ bound) : s.Rises bound' :=
  fun target htarget => (h target htarget).imp_left fun hclears => clears_mono hclears hle

theorem Below.mono (h : s.Below bound) (hle : bound' ≤ bound) : s.Below bound' where
  missed target htarget := (h.missed target htarget).imp_left hle.trans
  ceiled hceiled target htarget := hle.trans (h.ceiled hceiled target htarget)

theorem clears_of_le (h : bound ≤ target) : s.clears target bound = true := by
  simp [clears, h]

theorem Rises.clears_of_rollback (h : s.Rises bound) {stream : IndexerStream} {reason : String}
    (hheeds : s.heeds (.updateState stream (.rollbackTo bound reason) : Call H CascadeCall _) = true)
    (htarget : s.cascaded = some target) : s.clears target bound = true := by
  rcases h target htarget with hclears | hrewound
  · exact hclears
  · simp only [heeds, List.all_eq_true, decide_eq_true_eq] at hheeds
    exact clears_of_le (hheeds target hrewound)

theorem Handed.clears_of_advance (h : s.Handed start stop) {stream : IndexerStream} {hash : H}
    (hheeds : s.heeds (.updateState stream (.advance stop hash) : Call H CascadeCall _) = true)
    (htarget : s.cascaded = some target) : s.clears target stop = true := by
  rcases h.below.missed target htarget with hle | hrewound
  · exact clears_of_le hle
  · simp only [heeds, List.all_eq_true, caught, h.loaded, h.reached, Bool.or_eq_true,
      Bool.and_eq_true, decide_eq_true_eq] at hheeds
    obtain (hceiled | hle) | ⟨⟨hloaded, hprocessed⟩, hlost⟩ := hheeds target hrewound
    · exact clears_of_le (h.below.ceiled hceiled target (.inr htarget))
    · exact clears_of_le hle
    · simp only [clears, covers, Bool.or_eq_true, Bool.and_eq_true, decide_eq_true_eq,
        List.any_eq_true, List.all_eq_true]
      exact .inr ⟨⟨_, h.processed hprocessed, by omega, le_rfl⟩, hlost⟩

structure Sound (states : States H) (s : CascadeRows) : Prop where
  rows : ∀ slot : Slot, ∃ state, states slot.stream = some state
  placed : Placed s.tokens s.trades
  cascading : ∀ target, s.cascading = some target →
    (∀ state, states .factory = some state → state.lastProcessedBlock = target) ∧
      (∀ trade ∈ s.lost, target < trade.blockNumber) ∧ s.cascaded = none
  cascaded : ∀ target, s.cascaded = some target →
    (∀ state, states .factory = some state → state.lastProcessedBlock = target) ∧
      (∀ trade ∈ s.lost, target < trade.blockNumber) ∧
      ∀ state, states .curves = some state → s.clears target state.lastProcessedBlock = true

namespace Sound

variable {states : States H} {t : Tables H} {state : IndexerState H}

theorem factory (h : Sound t.states s)
    (hlast : ∀ target, s.cascading = some target ∨ s.cascaded = some target →
      state.lastProcessedBlock = target) : Sound (t.setState .factory state).states s where
  rows slot := Tables.setState_stands (h.rows slot) .factory state
  placed := h.placed
  cascading target htarget := by
    refine ⟨fun state' hstate => ?_, (h.cascading target htarget).2⟩
    rw [t.setState_states_self] at hstate
    cases hstate
    exact hlast target (.inl htarget)
  cascaded target htarget := by
    refine ⟨fun state' hstate => ?_, (h.cascaded target htarget).2⟩
    rw [t.setState_states_self] at hstate
    cases hstate
    exact hlast target (.inr htarget)

theorem curves (h : Sound t.states s)
    (hlast : ∀ target, s.cascaded = some target →
      s.clears target state.lastProcessedBlock = true) :
    Sound (t.setState .curves state).states s where
  rows slot := Tables.setState_stands (h.rows slot) .curves state
  placed := h.placed
  cascading := h.cascading
  cascaded target htarget := by
    obtain ⟨hfactory, hlost, -⟩ := h.cascaded target htarget
    refine ⟨hfactory, hlost, fun state' hstate => ?_⟩
    rw [t.setState_states_self] at hstate
    cases hstate
    exact hlast target htarget

theorem cascade (h : Sound states s) (htarget : s.cascading = some target)
    (hlast : ∀ state, states .curves = some state → state.lastProcessedBlock ≤ target) :
    Sound states (s.cascade target) where
  rows := h.rows
  placed := h.placed
  cascading _ hcascading := nomatch hcascading
  cascaded target' hcascaded := by
    cases hcascaded
    obtain ⟨hfactory, hlost, -⟩ := h.cascading target htarget
    exact ⟨hfactory, hlost, fun state hstate => by simp [clears, hlast state hstate]⟩

theorem deleteTokensAbove (h : Sound states s) (hfresh : s.Fresh) :
    Sound states (s.deleteTokensAbove target) where
  rows := h.rows
  placed := h.placed.deleteTokensAbove
  cascading _ hsome := nomatch hfresh.2.1.symm.trans hsome
  cascaded _ hsome := nomatch hfresh.2.2.symm.trans hsome

theorem storeLaunches (h : Sound states s) {launches : List LaunchRow} {fromBlock toBlock : Nat} :
    Sound states (s.storeLaunches launches fromBlock toBlock) where
  rows := h.rows
  placed := h.placed.storeLaunches
  cascading := h.cascading
  cascaded := h.cascaded

theorem deleteTradesAbove (h : Sound states s) : Sound states (s.deleteTradesAbove bound) where
  rows := h.rows
  placed := h.placed.deleteTradesAbove
  cascading := h.cascading
  cascaded := h.cascaded

theorem storeTrades (h : Sound states s) {trades : List TradeRow} {fromBlock toBlock : Nat} :
    Sound states (s.storeTrades trades fromBlock toBlock) where
  rows := h.rows
  placed := h.placed.storeTrades
  cascading := h.cascading
  cascaded target htarget := by
    obtain ⟨hfactory, hlost, hclears⟩ := h.cascaded target htarget
    refine ⟨hfactory, hlost, fun state hstate => ?_⟩
    have hold := hclears state hstate
    simp only [clears, covers, CascadeRows.storeTrades, List.any_cons, Bool.or_eq_true,
      Bool.and_eq_true] at hold ⊢
    exact hold.imp_right (And.imp_left Or.inr)

end Sound

end CascadeRows

namespace IndexerConfig

open CascadeRows

section gives

variable {v w x : CascadeWorld H}

structure Keeps (s t : CascadeRows) : Prop where
  loaded : t.turn.loaded = s.turn.loaded
  reached : t.turn.reached = s.turn.reached
  ceiled : t.turn.ceiled = true →
    s.turn.ceiled = true ∧ ∀ target, t.Moved target → s.Moved target
  processed : t.turn.processed = true → s.turn.processed = true ∧ t.processed = s.processed

structure FactoryGives (v w : CascadeWorld H) : Prop where
  sound : CascadeRows.Sound v.tables.states v.base → CascadeRows.Sound w.tables.states w.base
  cascaded : ∀ target, w.base.cascaded = some target → target ∈ w.base.rewound ∨
    v.base.cascaded = some target ∧ w.base.processed = v.base.processed ∧ w.base.lost = v.base.lost
  rewound : v.base.rewound ⊆ w.base.rewound
  turn : Keeps v.base w.base

structure CurvesGives (v w : CascadeWorld H) : Prop where
  sound : CascadeRows.Sound v.tables.states v.base → CascadeRows.Sound w.tables.states w.base
  lost : w.base.lost = v.base.lost
  cascading : w.base.cascading = v.base.cascading
  cascaded : w.base.cascaded = v.base.cascaded
  ticked : w.base.ticked = v.base.ticked

def Gives : Slot → CascadeWorld H → CascadeWorld H → Prop
  | .factory => FactoryGives
  | .curves => CurvesGives

theorem Keeps.of_turn {s t : CascadeRows} (hturn : t.turn = s.turn)
    (hmoved : ∀ target, t.Moved target → s.Moved target) (hprocessed : t.processed = s.processed) :
    Keeps s t where
  loaded := by rw [hturn]
  reached := by rw [hturn]
  ceiled h := ⟨by rwa [← hturn], hmoved⟩
  processed h := ⟨by rwa [← hturn], hprocessed⟩

theorem Keeps.refl (s : CascadeRows) : Keeps s s := .of_turn rfl (fun _ h => h) rfl

theorem Keeps.trans {s t u : CascadeRows} (h : Keeps s t) (h' : Keeps t u) : Keeps s u where
  loaded := h'.loaded.trans h.loaded
  reached := h'.reached.trans h.reached
  ceiled hceiled :=
    have ⟨hmid, hmoved⟩ := h'.ceiled hceiled
    have ⟨hfirst, hmoved'⟩ := h.ceiled hmid
    ⟨hfirst, fun target htarget => hmoved' target (hmoved target htarget)⟩
  processed hprocessed :=
    have ⟨hmid, hsame⟩ := h'.processed hprocessed
    have ⟨hfirst, hsame'⟩ := h.processed hmid
    ⟨hfirst, hsame.trans hsame'⟩

theorem Gives.refl (slot : Slot) (w : CascadeWorld H) : Gives slot w w := by
  cases slot with
  | factory => exact ⟨id, fun _ h => .inr ⟨h, rfl, rfl⟩, fun _ h => h, .refl _⟩
  | curves => exact ⟨id, rfl, rfl, rfl, rfl⟩

theorem Gives.trans {slot : Slot} (h : Gives slot v w) (h' : Gives slot w x) : Gives slot v x := by
  cases slot with
  | factory =>
    refine ⟨h'.sound ∘ h.sound, fun target htarget => ?_, List.Subset.trans h.rewound h'.rewound,
      h.turn.trans h'.turn⟩
    rcases h'.cascaded target htarget with hrewound | ⟨hcascaded, hprocessed, hlost⟩
    · exact .inl hrewound
    · exact (h.cascaded target hcascaded).imp (fun hrewound => h'.rewound hrewound)
        fun ⟨hc, hp, hl⟩ => ⟨hc, hprocessed.trans hp, hlost.trans hl⟩
  | curves =>
    exact ⟨h'.sound ∘ h.sound, h'.lost.trans h.lost, h'.cascading.trans h.cascading,
      h'.cascaded.trans h.cascaded, h'.ticked.trans h.ticked⟩

end gives

def FactoryKnows : Phase H → CascadeRows → Prop
  | .idle, s => s.ticked = false → s.Fresh
  | .deleted _ target, s => s.ticked = true ∧ s.cascading = none ∧ s.cascaded = none ∧
    ∀ trade ∈ s.lost, target < trade.blockNumber
  | .rewound _ target rest, s => s.ticked = true ∧
    (rest = [] ∨ rest = [.curves] ∧ s.cascading = some target)
  | .ahead _ target dependent rest, s => s.ticked = true ∧ dependent = .curves ∧ rest = [] ∧
    s.cascading = some target
  | _, s => s.ticked = true ∧ s.Fresh

def CurvesKnows : Phase H → CascadeRows → Prop
  | .loaded checkpoint, s =>
    s.turn.loaded = checkpoint.lastProcessedBlock ∧ s.Rises checkpoint.lastProcessedBlock
  | .checked checkpoint, s => s.turn.loaded = checkpoint.lastProcessedBlock
  | .diverged _ target, s => s.Rises target
  | .deleted _ target, s => s.Rises target
  | .rewound _ _ rest, _ => rest = []
  | .ahead .., _ => False
  | .ceiled checkpoint ceiling, s =>
    s.turn.loaded = checkpoint.lastProcessedBlock ∧ ∀ bound, ceiling = some bound → s.Below bound
  | .bounded checkpoint boundary, s =>
    s.turn.loaded = checkpoint.lastProcessedBlock ∧ s.Below boundary
  | .addressed checkpoint boundary _, s =>
    s.turn.loaded = checkpoint.lastProcessedBlock ∧ s.Below boundary
  | .fetched checkpoint batch, s => s.Reaches checkpoint.lastProcessedBlock batch.reachedBlock
  | .hashed checkpoint batch _, s => s.Reaches checkpoint.lastProcessedBlock batch.reachedBlock
  | .processed checkpoint batch _, s => s.Handed checkpoint.lastProcessedBlock batch.reachedBlock
  | _, _ => True

def Knows : Slot → Phase H → CascadeRows → Prop
  | .factory => FactoryKnows
  | .curves => CurvesKnows

def Holds (slot : Slot) (p : Phase H) (w : CascadeWorld H) : Prop :=
  Sound w.tables.states w.base ∧ Knows slot p w.base

section knows

variable {slot : Slot} {p q : Phase H} {v w : CascadeWorld H} {target bound : Nat}

theorem FactoryGives.rises (h : FactoryGives v w) (hv : v.base.Rises bound) :
    w.base.Rises bound := by
  intro target htarget
  rcases h.cascaded target htarget with hrewound | ⟨hcascaded, hprocessed, hlost⟩
  · exact .inr hrewound
  · refine (hv target hcascaded).imp (fun hclears => ?_) fun hrewound => h.rewound hrewound
    simpa only [clears, covers, hprocessed, hlost] using hclears

theorem FactoryGives.below (h : FactoryGives v w) (hv : v.base.Below bound) :
    w.base.Below bound where
  missed target htarget := by
    rcases h.cascaded target htarget with hrewound | ⟨hcascaded, -, -⟩
    · exact .inr hrewound
    · exact (hv.missed target hcascaded).imp_right fun hrewound => h.rewound hrewound
  ceiled hceiled target htarget := by
    obtain ⟨hceiled, hmoved⟩ := h.turn.ceiled hceiled
    exact hv.ceiled hceiled target (hmoved target htarget)

theorem FactoryGives.reaches {start stop : Nat} (h : FactoryGives v w)
    (hv : v.base.Reaches start stop) : w.base.Reaches start stop :=
  ⟨h.below hv.below, h.turn.loaded.trans hv.loaded, h.turn.reached.trans hv.reached⟩

theorem FactoryGives.handed {start stop : Nat} (h : FactoryGives v w)
    (hv : v.base.Handed start stop) : w.base.Handed start stop where
  toReaches := h.reaches hv.toReaches
  processed hprocessed := by
    obtain ⟨hprocessed, hsame⟩ := h.turn.processed hprocessed
    rw [hsame]
    exact hv.processed hprocessed

theorem Knows.gives (h : Knows slot p v.base) (hgives : Gives slot.other v w) :
    Knows slot p w.base := by
  cases slot with
  | factory =>
    obtain ⟨-, hlost, hcascading, hcascaded, hticked⟩ : CurvesGives v w := hgives
    simp only [Knows] at h ⊢
    cases p <;> simpa only [FactoryKnows, Fresh, hlost, hcascading, hcascaded, hticked] using h
  | curves =>
    have hgives : FactoryGives v w := hgives
    simp only [Knows] at h ⊢
    have hloaded : w.base.turn.loaded = v.base.turn.loaded := hgives.turn.loaded
    cases p with
    | loaded _ => exact ⟨hloaded.trans h.1, hgives.rises h.2⟩
    | checked _ => exact hloaded.trans h
    | diverged _ _ => exact hgives.rises h
    | deleted _ _ => exact hgives.rises h
    | ceiled _ ceiling =>
      exact ⟨hloaded.trans h.1, fun bound hbound => hgives.below (h.2 bound hbound)⟩
    | bounded _ _ => exact ⟨hloaded.trans h.1, hgives.below h.2⟩
    | addressed _ _ _ => exact ⟨hloaded.trans h.1, hgives.below h.2⟩
    | fetched _ _ => exact hgives.reaches h
    | hashed _ _ _ => exact hgives.reaches h
    | processed _ _ _ => exact hgives.handed h
    | _ => exact h

theorem Gives.sound (h : Gives slot v w) :
    Sound v.tables.states v.base → Sound w.tables.states w.base := by
  cases slot with
  | factory => exact FactoryGives.sound h
  | curves => exact CurvesGives.sound h

theorem Gives.of_same (hstates : v.tables.states = w.tables.states) {checked : Slot → Bool}
    (hbase : v.base = { w.base with checked }) (slot : Slot) : Gives slot w v := by
  have hsound (h : Sound w.tables.states w.base) : Sound v.tables.states v.base := by
    rw [hstates, hbase]
    exact ⟨h.rows, h.placed, h.cascading, h.cascaded⟩
  cases slot with
  | factory =>
    refine ⟨hsound, fun _ ht => .inr (by simpa [hbase] using ht), by simp [hbase], ?_⟩
    rw [hbase]
    exact .of_turn rfl (fun _ h => h) rfl
  | curves => exact ⟨hsound, by rw [hbase], by rw [hbase], by rw [hbase], by rw [hbase]⟩

theorem Holds.same (h : Holds slot p w) (hstates : v.tables.states = w.tables.states)
    {checked : Slot → Bool} (hbase : v.base = { w.base with checked }) (hq : Knows slot q w.base) :
    Gives slot w v ∧ Holds slot q v := by
  have hgives : ∀ slot, Gives slot w v := Gives.of_same hstates hbase
  exact ⟨hgives slot, (hgives slot).sound h.1, hq.gives (hgives slot.other)⟩

end knows

section factory

variable {cfg : IndexerConfig} {v w : CascadeWorld H} {o : Answers (CascadeReply H)} {p : Phase H}
  {checkpoint state : IndexerState H} {target : Nat} {answer : Except Failure β}

variable (H) in
theorem factoryKnows_idle {s : CascadeRows} (h : s.ticked = true) :
    Knows .factory (.idle : Phase H) s :=
  fun hnot => nomatch h.symm.trans hnot

theorem factory_update (h : Holds .factory .idle w)
    (hlast : ∀ target, w.base.cascading = some target ∨ w.base.cascaded = some target →
      state.lastProcessedBlock = target)
    (hstates : v.tables.states = (w.tables.setState .factory state).states)
    (hbase : v.base = w.base) : Gives .factory w v ∧ Holds .factory .idle v := by
  have hsound : Sound v.tables.states v.base := by
    rw [hstates, hbase]
    exact h.1.factory hlast
  refine ⟨⟨fun _ => hsound, fun target htarget => .inr (by simpa [hbase] using htarget),
    by simp [hbase], by rw [hbase]; exact .refl _⟩, hsound, ?_⟩
  rw [hbase]
  exact h.2

theorem factory_load (h : Sound w.tables.states w.base) (hfresh : w.base.Fresh)
    {answer : Except Failure (IndexerState H)} (hstates : v.tables.states = w.tables.states)
    (hbase : v.base = { w.base with ticked := true }) :
    Gives .factory w v ∧ Holds .factory (Phase.after Phase.afterLoad answer) v := by
  have hsound : Sound v.tables.states v.base := by
    rw [hstates, hbase]
    exact ⟨h.rows, h.placed, h.cascading, h.cascaded⟩
  refine ⟨⟨fun _ => hsound, fun target htarget => .inr (by simpa [hbase] using htarget),
    by simp [hbase], by rw [hbase]; exact .of_turn rfl (fun _ h => h) rfl⟩, hsound, ?_⟩
  rw [hbase]
  exact Phase.holds_afterLoad (K := (FactoryKnows · _)) (factoryKnows_idle H rfl)
    fun _ _ => ⟨rfl, hfresh⟩

theorem factory_rewind (h : Holds .factory (.deleted checkpoint target) w)
    (hlast : state.lastProcessedBlock = target)
    (hstates : v.tables.states = (w.tables.setState .factory state).states)
    (hbase : v.base = { w.base with
      cascading := some target, processed := []
      turn := { w.base.turn with ceiled := false, processed := false } }) :
    Gives .factory w v ∧ Holds .factory
      (Phase.after (fun _ => .rewound checkpoint target [.curves]) answer) v := by
  obtain ⟨hsound, hticked, hcascading, hcascaded, hlost⟩ := h
  have hafter : Sound v.tables.states v.base := by
    rw [hstates, hbase]
    have hmoved : Sound (w.tables.setState .factory state).states w.base :=
      hsound.factory fun _ hsome => by simp [hcascading, hcascaded] at hsome
    refine ⟨hmoved.rows, hsound.placed, ?_, fun _ hsome => nomatch hcascaded.symm.trans hsome⟩
    rintro _ ⟨⟩
    refine ⟨fun state' hstate => ?_, hlost, hcascaded⟩
    rw [Tables.setState_states_self] at hstate
    cases hstate
    exact hlast
  refine ⟨⟨fun _ => hafter, fun target' hsome => ?_, by simp [hbase], ?_⟩, hafter, ?_⟩
  · rw [hbase] at hsome
    exact nomatch hcascaded.symm.trans hsome
  · rw [hbase]
    exact ⟨rfl, rfl, fun h => (nomatch h), fun h => (nomatch h)⟩
  · rw [hbase]
    exact Phase.holds_after (K := (FactoryKnows · _)) (factoryKnows_idle H hticked)
      fun _ _ => ⟨hticked, .inr ⟨rfl, rfl⟩⟩

theorem factory_cascade (checkpoint : IndexerState H) (hafter : Sound v.tables.states v.base)
    (hticked : w.base.ticked = true) (hcascading : w.base.cascading = some target)
    (hbase : v.base = w.base.cascade target) :
    Gives .factory w v ∧ Holds .factory (.rewound checkpoint target []) v ∧
      Holds .factory .idle v := by
  have hticked' : v.base.ticked = true := by rw [hbase]; exact hticked
  refine ⟨⟨fun _ => hafter, fun target' hsome => .inl ?_, ?_, ?_⟩, ⟨hafter, hticked', .inl rfl⟩,
    hafter, factoryKnows_idle H hticked'⟩
  · rw [hbase] at hsome ⊢
    cases hsome
    exact List.mem_cons_self
  · rw [hbase]
    exact fun _ => List.mem_cons_of_mem _
  · rw [hbase]
    refine .of_turn rfl (fun target' hmoved => ?_) rfl
    rcases hmoved with hsome | hsome
    · cases hsome
    · cases hsome
      exact .inl hcascading

theorem factory_look (h : Holds .factory (.rewound checkpoint target [.curves]) w)
    {answer : Except Failure (Option (IndexerState H))}
    (hstates : v.tables.states = w.tables.states)
    (hbase : v.base = w.base.noteLook answer)
    (hanswer : ∀ current, answer = .ok current → current = w.tables.states .curves) :
    Gives .factory w v ∧ Holds .factory
      (Phase.after (Phase.afterLook checkpoint target .curves []) answer) v := by
  obtain ⟨hsound, hticked, hrest⟩ := h
  obtain ⟨-, hcascading⟩ := hrest.resolve_left nofun
  cases answer with
  | error _ =>
    exact Holds.same (p := .idle) ⟨hsound, factoryKnows_idle H hticked⟩ hstates hbase
      (factoryKnows_idle H hticked)
  | ok current =>
    cases hanswer current rfl
    obtain ⟨state, hstate⟩ := hsound.rows .curves
    replace hstate : w.tables.states .curves = some state := hstate
    simp only [noteLook, hcascading, hstate, Option.all_some, decide_eq_true_eq] at hbase
    simp only [Phase.after, hstate, Phase.afterLook]
    split at hbase
    · rename_i hle
      rw [if_pos hle]
      obtain ⟨hgives, hholds, -⟩ := factory_cascade (v := v) (w := w) checkpoint (by
        rw [hstates, hbase]
        exact hsound.cascade hcascading fun _ hsome => by cases hstate.symm.trans hsome; exact hle)
        hticked hcascading hbase
      exact ⟨hgives, hholds⟩
    · rename_i hgt
      rw [if_neg hgt]
      exact Holds.same (p := .idle) ⟨hsound, factoryKnows_idle H hticked⟩ hstates hbase
        ⟨hticked, rfl, rfl, hcascading⟩

theorem factory_pull (h : Holds .factory (.ahead checkpoint target .curves []) w)
    (hlast : state.lastProcessedBlock = target)
    (hstates : v.tables.states = (w.tables.setState .curves state).states)
    (hbase : v.base = w.base.cascade target) :
    Gives .factory w v ∧ Holds .factory
      (Phase.after (fun _ => .rewound checkpoint target []) answer) v := by
  obtain ⟨hsound, hticked, -, -, hcascading⟩ := h
  have hmoved : Sound (w.tables.setState .curves state).states w.base :=
    hsound.curves fun _ hsome => nomatch (hsound.cascading target hcascading).2.2.symm.trans hsome
  obtain ⟨hgives, hholds, hidle⟩ := factory_cascade (v := v) (w := w) checkpoint (by
    rw [hstates, hbase]
    refine hmoved.cascade hcascading fun state' hstate => ?_
    rw [Tables.setState_states_self] at hstate
    cases hstate
    exact hlast.le) hticked hcascading hbase
  cases answer with
  | error _ => exact ⟨hgives, hidle⟩
  | ok _ => exact ⟨hgives, hholds⟩

theorem factory_other {c : Call H CascadeCall β} {next : Except Failure β → Phase H}
    (h : Holds .factory p w) (hmove : c.isMove = false) (hown : c.isOwn = false)
    (hnote : ∀ applied answer, ∃ checked,
      w.base.noteFactory applied c answer = { w.base with checked })
    (hnext : ∀ answer, FactoryKnows (next answer) w.base) :
    Gives .factory w (cascadeExec .factory c o w).2 ∧
      Holds .factory (next (cascadeExec .factory c o w).1) (cascadeExec .factory c o w).2 := by
  obtain ⟨hstates, hbase⟩ := @cascadeExec_other H _ .factory c o w hmove hown
  obtain ⟨checked, hchecked⟩ := hnote o.applied (cascadeExec .factory c o w).1
  exact h.same hstates (hbase.trans hchecked) (hnext _)

theorem factory_moved {data : StateUpdate H} {next : Except Failure (IndexerState H) → Phase H}
    (h : Holds .factory p w) {stream : IndexerStream} (hstate : w.tables.states stream = some state)
    (hfailed : ∀ error, FactoryKnows (next (.error error)) w.base)
    (happlied : ∀ v : CascadeWorld H, ∀ answer,
      v.tables.states = (w.tables.setState stream (data.apply state)).states →
      v.base = w.base.noteMove stream data → Gives .factory w v ∧ Holds .factory (next answer) v) :
    Gives .factory w (cascadeExec .factory (.updateState stream data) o w).2 ∧
      Holds .factory (next (cascadeExec .factory (.updateState stream data) o w).1)
        (cascadeExec .factory (.updateState stream data) o w).2 := by
  rcases @cascadeExec_updateState H .factory o w stream state data hstate with
    ⟨⟨error, herror⟩, hstates, hbase⟩ | ⟨hstates, hbase⟩
  · rw [herror]
    exact h.same hstates hbase (hfailed error)
  · exact happlied _ _ hstates hbase

theorem factory_delete (h : Holds .factory (.diverged checkpoint target) w) :
    Gives .factory w (cascadeExec .factory (.ext (.deleteTokensAbove target)) o w).2 ∧
      Holds .factory (Phase.after (fun _ => .deleted checkpoint target)
        (cascadeExec .factory (.ext (.deleteTokensAbove target)) o w).1)
        (cascadeExec .factory (.ext (.deleteTokensAbove target)) o w).2 := by
  obtain ⟨hsound, hticked, hfresh⟩ := id h
  obtain ⟨hstates, ⟨⟨error, herror⟩, hbase⟩ | hbase⟩ :=
    @cascadeExec_ext H Unit .factory o w (.deleteTokensAbove target)
  · rw [herror]
    exact h.same hstates hbase (factoryKnows_idle H hticked)
  · replace hbase : (cascadeExec .factory (.ext (.deleteTokensAbove target)) o w).2.base =
        w.base.deleteTokensAbove target := hbase
    have hafter : Sound (cascadeExec .factory (.ext (.deleteTokensAbove target)) o w).2.tables.states
        (cascadeExec .factory (.ext (.deleteTokensAbove target)) o w).2.base := by
      rw [hstates, hbase]
      exact hsound.deleteTokensAbove hfresh
    refine ⟨⟨fun _ => hafter, fun target' hsome => ?_, by rw [hbase]; exact fun _ h => h,
      by rw [hbase]; exact .of_turn rfl (fun _ h => h) rfl⟩, hafter, ?_⟩
    · rw [hbase] at hsome
      exact nomatch hfresh.2.2.symm.trans hsome
    · rw [hbase]
      refine Phase.holds_after (K := (FactoryKnows · _)) (factoryKnows_idle H hticked) fun _ _ => ?_
      refine ⟨hticked, hfresh.2.1, hfresh.2.2, fun trade htrade => ?_⟩
      refine (hsound.placed.lost_above htrade).resolve_left fun hold => ?_
      rw [hfresh.1] at hold
      cases hold

theorem factory_store {batch : LogBatch H} {reachedHash : H} {fromBlock toBlock : Nat}
    (h : Holds .factory (.hashed checkpoint batch reachedHash) w) :
    Gives .factory w (cascadeExec .factory (.ext (.storeLaunches fromBlock toBlock)) o w).2 ∧
      Holds .factory (Phase.after (fun _ => .processed checkpoint batch reachedHash)
        (cascadeExec .factory (.ext (.storeLaunches fromBlock toBlock)) o w).1)
        (cascadeExec .factory (.ext (.storeLaunches fromBlock toBlock)) o w).2 := by
  obtain ⟨hsound, hticked, hfresh⟩ := id h
  obtain ⟨hstates, ⟨⟨error, herror⟩, hbase⟩ | hbase⟩ :=
    @cascadeExec_ext H Unit .factory o w (.storeLaunches fromBlock toBlock)
  · rw [herror]
    exact h.same hstates hbase (factoryKnows_idle H hticked)
  · replace hbase : (cascadeExec .factory (.ext (.storeLaunches fromBlock toBlock)) o w).2.base =
        w.base.storeLaunches o.ext.launches fromBlock toBlock := hbase
    have hafter : Sound
        (cascadeExec .factory (.ext (.storeLaunches fromBlock toBlock)) o w).2.tables.states
        (cascadeExec .factory (.ext (.storeLaunches fromBlock toBlock)) o w).2.base := by
      rw [hstates, hbase]
      exact hsound.storeLaunches
    refine ⟨⟨fun _ => hafter, fun target' hsome => ?_, by rw [hbase]; exact fun _ h => h,
      by rw [hbase]; exact .of_turn rfl (fun _ h => h) rfl⟩, hafter, ?_⟩
    · rw [hbase] at hsome
      exact nomatch hfresh.2.2.symm.trans hsome
    · rw [hbase]
      exact Phase.holds_after (K := (FactoryKnows · _)) (factoryKnows_idle H hticked)
        fun _ _ => ⟨hticked, hfresh⟩

variable [DecidableEq H]

theorem factory_step {c : Call H CascadeCall β} {next : Except Failure β → Phase H}
    (hc : Awaits (cfg.slotScanner .factory) p c next) (h : Holds .factory p w)
    (hallow : c.isLoad = true → w.base.ticked = false) :
    Gives .factory w (cascadeExec .factory c o w).2 ∧
      Holds .factory (next (cascadeExec .factory c o w).1) (cascadeExec .factory c o w).2 := by
  obtain ⟨hsound, hknows⟩ := id h
  obtain ⟨state, hstate⟩ := hsound.rows .factory
  replace hstate : w.tables.states .factory = some state := hstate
  cases hc with
  | load =>
    have hfresh : w.base.Fresh := hknows (hallow rfl)
    obtain ⟨hstates, hbase, -⟩ :=
      @cascadeExec_upsertState H .factory o w .factory state cfg.startBlock hstate
    exact factory_load hsound hfresh hstates hbase
  | check hash block =>
    refine factory_other h rfl rfl (fun _ _ => ⟨_, rfl⟩) fun answer => ?_
    exact Phase.holds_afterCheck (K := (FactoryKnows · w.base)) hknows fun _ _ => hknows
  | rewind =>
    exact factory_moved h hstate (fun _ => factoryKnows_idle H hknows.1) fun v answer =>
      factory_rewind h rfl
  | @look checkpoint target dependent rest =>
    obtain ⟨hrest, -⟩ := hknows.2.resolve_left (List.cons_ne_nil _ _)
    cases hrest
    obtain ⟨hstates, hbase, hanswer⟩ := @cascadeExec_findState H .factory o w .curves
    exact factory_look h hstates hbase hanswer
  | @pull checkpoint target dependent rest reason =>
    obtain ⟨-, hdependent, hrest, -⟩ := id hknows
    cases hdependent
    cases hrest
    obtain ⟨curves, hcurves⟩ := hsound.rows .curves
    exact factory_moved h hcurves (fun _ => factoryKnows_idle H hknows.1) fun v answer =>
      factory_pull h rfl
  | head =>
    refine factory_other h rfl rfl (fun _ _ => ⟨_, rfl⟩) fun answer => ?_
    exact Phase.holds_after (K := (FactoryKnows · w.base)) (factoryKnows_idle H hknows.1)
      fun _ _ => hknows
  | fetch =>
    refine factory_other h rfl rfl (fun _ _ => ⟨_, rfl⟩) fun answer => ?_
    exact Phase.holds_afterFetch (K := (FactoryKnows · w.base)) (factoryKnows_idle H hknows.1)
      fun _ _ _ => hknows
  | hash =>
    refine factory_other h rfl rfl (fun _ _ => ⟨_, rfl⟩) fun answer => ?_
    exact Phase.holds_after (K := (FactoryKnows · w.base)) (factoryKnows_idle H hknows.1)
      fun _ _ => hknows
  | reread =>
    refine factory_other h rfl rfl (fun _ _ => ⟨_, rfl⟩) fun answer => ?_
    exact Phase.holds_afterReread (K := (FactoryKnows · w.base)) (factoryKnows_idle H hknows.1)
      hknows
  | advance =>
    obtain ⟨hticked, -, hcascading, hcascaded⟩ := id hknows
    refine factory_moved h hstate
      (fun _ => factoryKnows_idle H hticked) fun v answer hstates hbase => ?_
    obtain ⟨hgives, hsound', hidle⟩ := factory_update ⟨hsound, factoryKnows_idle H hticked⟩
      (fun target hsome => by simp [hcascading, hcascaded] at hsome) hstates hbase
    refine ⟨hgives, hsound', ?_⟩
    cases answer with
    | error _ => exact hidle
    | ok _ =>
      rw [hbase]
      exact hknows
  | resolve =>
    refine factory_other h rfl rfl (fun _ _ => ⟨_, rfl⟩) fun answer => ?_
    exact Phase.holds_after (K := (FactoryKnows · w.base)) (factoryKnows_idle H hknows.1)
      fun _ _ => hknows
  | recordError =>
    refine @factory_moved H w o .idle state _ (fun _ => .idle) h _ hstate (fun _ => hknows)
      fun v answer hstates hbase => ?_
    refine factory_update h (fun target hsome => ?_) hstates hbase
    rcases hsome with hcascading | hcascaded
    · exact (hsound.cascading target hcascading).1 state hstate
    · exact (hsound.cascaded target hcascaded).1 state hstate
  | recordFailedBlock =>
    exact @factory_other H _ w o .idle _ (fun _ => .idle) h rfl rfl (fun _ _ => ⟨_, rfl⟩)
      fun _ => hknows

end factory

section curves

variable {cfg : IndexerConfig} {v w : CascadeWorld H} {o : Answers (CascadeReply H)} {p q : Phase H}
  {checkpoint state : IndexerState H} {bound : Nat}

theorem curves_other {c : Call H CascadeCall β} {next : Except Failure β → Phase H}
    (h : Holds .curves p w) (hmove : c.isMove = false) (hown : c.isOwn = false)
    (hnote : ∀ applied answer, ∃ checked,
      w.base.noteCurves applied c answer = { w.base with checked })
    (hnext : CurvesKnows (next (cascadeExec .curves c o w).1) w.base) :
    Gives .curves w (cascadeExec .curves c o w).2 ∧
      Holds .curves (next (cascadeExec .curves c o w).1) (cascadeExec .curves c o w).2 := by
  obtain ⟨hstates, hbase⟩ := @cascadeExec_other H _ .curves c o w hmove hown
  obtain ⟨checked, hchecked⟩ := hnote o.applied (cascadeExec .curves c o w).1
  exact h.same hstates (hbase.trans hchecked) hnext

theorem curves_turn (h : Sound w.tables.states w.base) (hstates : v.tables.states = w.tables.states)
    {turn : Turn} (hbase : v.base = { w.base with turn }) (hq : CurvesKnows q v.base) :
    Gives .curves w v ∧ Holds .curves q v := by
  have hsound : Sound v.tables.states v.base := by
    rw [hstates, hbase]
    exact ⟨h.rows, h.placed, h.cascading, h.cascaded⟩
  exact ⟨⟨fun _ => hsound, by rw [hbase], by rw [hbase], by rw [hbase], by rw [hbase]⟩, hsound, hq⟩

theorem curves_load (h : Sound w.tables.states w.base)
    (hstate : w.tables.states .curves = some state)
    {answer : Except Failure (IndexerState H)} (hstates : v.tables.states = w.tables.states)
    (hbase : v.base = { w.base with rewound := [], turn := w.base.turn.load answer })
    (hanswer : ∀ checkpoint, answer = .ok checkpoint → checkpoint = state) :
    Gives .curves w v ∧ Holds .curves (Phase.after Phase.afterLoad answer) v := by
  have hsound : Sound v.tables.states v.base := by
    rw [hstates, hbase]
    exact ⟨h.rows, h.placed, h.cascading, h.cascaded⟩
  refine ⟨⟨fun _ => hsound, by rw [hbase], by rw [hbase], by rw [hbase], by rw [hbase]⟩, hsound, ?_⟩
  refine Phase.holds_afterLoad (K := (CurvesKnows · v.base)) trivial ?_
  intro checkpoint hok
  cases hanswer checkpoint hok
  rw [hbase, hok]
  exact ⟨rfl, fun target htarget => .inl ((h.cascaded target htarget).2.2 state hstate)⟩

theorem curves_moved {data : StateUpdate H} {next : Except Failure (IndexerState H) → Phase H}
    (h : Holds .curves p w) (hlast : ∀ state, w.tables.states .curves = some state →
      ∀ target, w.base.cascaded = some target →
        w.base.clears target (data.apply state).lastProcessedBlock = true)
    (hnext : ∀ answer s, CurvesKnows (next answer) s) :
    Gives .curves w (cascadeExec .curves (.updateState .curves data) o w).2 ∧
      Holds .curves (next (cascadeExec .curves (.updateState .curves data) o w).1)
        (cascadeExec .curves (.updateState .curves data) o w).2 := by
  obtain ⟨state, hstate⟩ := h.1.rows .curves
  replace hstate : w.tables.states .curves = some state := hstate
  rcases @cascadeExec_updateState H .curves o w .curves state data hstate with
    ⟨-, hstates, hbase⟩ | ⟨hstates, hbase⟩
  · exact h.same hstates hbase (hnext ..)
  · obtain ⟨checked, hchecked⟩ : ∃ checked, w.base.noteRewind data = { w.base with checked } := by
      cases data <;> exact ⟨_, rfl⟩
    replace hbase := hbase.trans hchecked
    have hsound := h.1.curves (hlast state hstate)
    have hafter : Sound (cascadeExec .curves (.updateState .curves data) o w).2.tables.states
        (cascadeExec .curves (.updateState .curves data) o w).2.base := by
      rw [hstates, hbase]
      exact ⟨hsound.rows, hsound.placed, hsound.cascading, hsound.cascaded⟩
    exact ⟨⟨fun _ => hafter, by rw [hbase], by rw [hbase], by rw [hbase], by rw [hbase]⟩, hafter,
      hnext ..⟩

theorem curves_own {call : CascadeCall Unit} (h : Holds .curves p w)
    (hsound : Sound w.tables.states (cascadeBackend.ext call o w.base).2)
    (hsame : (cascadeBackend.ext call o w.base).2.lost = w.base.lost ∧
      (cascadeBackend.ext call o w.base).2.cascading = w.base.cascading ∧
      (cascadeBackend.ext call o w.base).2.cascaded = w.base.cascaded ∧
      (cascadeBackend.ext call o w.base).2.ticked = w.base.ticked)
    (hq : CurvesKnows q (cascadeBackend.ext call o w.base).2) :
    Gives .curves w (cascadeExec .curves (.ext call) o w).2 ∧
      Holds .curves (Phase.after (fun _ => q) (cascadeExec .curves (.ext call) o w).1)
        (cascadeExec .curves (.ext call) o w).2 := by
  obtain ⟨hstates, ⟨⟨error, herror⟩, hbase⟩ | hbase⟩ := @cascadeExec_ext H Unit .curves o w call
  · rw [herror]
    exact h.same hstates hbase trivial
  · have hafter : Sound (cascadeExec .curves (.ext call) o w).2.tables.states
        (cascadeExec .curves (.ext call) o w).2.base := by
      rw [hstates, hbase]
      exact hsound
    refine ⟨⟨fun _ => hafter, ?_, ?_, ?_, ?_⟩, hafter, ?_⟩
    · rw [hbase, hsame.1]
    · rw [hbase, hsame.2.1]
    · rw [hbase, hsame.2.2.1]
    · rw [hbase, hsame.2.2.2]
    · rw [hbase]
      cases (cascadeExec .curves _ o w).1 with
      | error _ => trivial
      | ok _ => exact hq

theorem curves_ceiling {startBlock : Nat} (h : Holds .curves (.checked checkpoint) w) :
    Gives .curves w (cascadeExec .curves (.upsertState .factory startBlock) o w).2 ∧
      Holds .curves (Phase.after (fun factory : IndexerState H =>
        .ceiled checkpoint (some factory.lastProcessedBlock))
        (cascadeExec .curves (.upsertState .factory startBlock) o w).1)
        (cascadeExec .curves (.upsertState .factory startBlock) o w).2 := by
  obtain ⟨hsound, hloaded⟩ := h
  obtain ⟨state, hstate⟩ := hsound.rows .factory
  obtain ⟨hstates, hbase, hanswer⟩ :=
    @cascadeExec_upsertState H .curves o w .factory state startBlock hstate
  replace hbase : (cascadeExec .curves (.upsertState .factory startBlock) o w).2.base =
      { w.base with turn := { w.base.turn with ceiled := true } } := hbase
  refine curves_turn hsound hstates hbase ?_
  refine Phase.holds_after (K := (CurvesKnows · _)) trivial fun factory hok => ?_
  cases hanswer factory hok
  rw [hbase]
  refine ⟨hloaded, ?_⟩
  rintro _ ⟨⟩
  refine ⟨fun target htarget => .inl ((hsound.cascaded target htarget).1 _ hstate).le,
    fun _ target hmoved => ?_⟩
  rcases hmoved with hcascading | hcascaded
  · exact ((hsound.cascading target hcascading).1 _ hstate).le
  · exact ((hsound.cascaded target hcascaded).1 _ hstate).le

theorem curves_fetch {query : LogQuery} {boundary : Nat} {addresses : List Address}
    (h : Holds .curves (.addressed checkpoint boundary addresses) w)
    (hquery : query.toBlock = boundary) :
    Gives .curves w (cascadeExec .curves (.getLogs query) o w).2 ∧
      Holds .curves (Phase.after (Phase.afterFetch checkpoint)
        (cascadeExec .curves (.getLogs query) o w).1)
        (cascadeExec .curves (.getLogs query) o w).2 := by
  obtain ⟨hsound, hloaded, hbelow⟩ := h
  obtain ⟨hstates, hbase⟩ :=
    @cascadeExec_other H _ .curves (.getLogs query) o w rfl rfl
  replace hbase : (cascadeExec .curves (.getLogs query) o w).2.base =
      { w.base with turn := w.base.turn.reach (cascadeExec .curves (.getLogs query) o w).1 } :=
    hbase
  refine curves_turn hsound hstates hbase ?_
  refine Phase.holds_afterFetch (K := (CurvesKnows · _)) trivial fun batch hanswer _ => ?_
  have hreached : batch.reachedBlock ≤ boundary := hquery ▸ cascadeExec_getLogs hanswer
  rw [hbase, hanswer]
  exact ⟨⟨(hbelow.mono hreached).missed, (hbelow.mono hreached).ceiled⟩, hloaded, rfl⟩

variable [DecidableEq H]

theorem curves_step {c : Call H CascadeCall β} {next : Except Failure β → Phase H}
    (hc : Awaits (cfg.slotScanner .curves) p c next) (h : Holds .curves p w)
    (hheeds : w.base.heeds c = true) :
    Gives .curves w (cascadeExec .curves c o w).2 ∧
      Holds .curves (next (cascadeExec .curves c o w).1) (cascadeExec .curves c o w).2 := by
  obtain ⟨hsound, hknows⟩ := id h
  cases hc with
  | load =>
    obtain ⟨state, hstate⟩ := hsound.rows .curves
    obtain ⟨hstates, hbase, hanswer⟩ :=
      @cascadeExec_upsertState H .curves o w .curves state cfg.startBlock hstate
    exact curves_load hsound hstate hstates hbase hanswer
  | check hash block =>
    refine curves_other h rfl rfl (fun _ _ => ⟨_, rfl⟩) ?_
    exact Phase.holds_afterCheck (K := (CurvesKnows · w.base)) hknows.1
      fun _ hle => hknows.2.mono hle
  | @rewind checkpoint target reason =>
    refine curves_moved h (fun state hstate target' htarget => ?_) fun answer _ => ?_
    · exact Rises.clears_of_rollback hknows hheeds htarget
    · cases answer with
      | error _ => trivial
      | ok _ => rfl
  | look => cases hknows
  | pull => exact hknows.elim
  | head =>
    refine curves_other h rfl rfl (fun _ _ => ⟨_, rfl⟩) ?_
    exact Phase.holds_after (K := (CurvesKnows · w.base)) trivial fun _ _ => hknows
  | fetch => exact curves_fetch h rfl
  | hash =>
    refine curves_other h rfl rfl (fun _ _ => ⟨_, rfl⟩) ?_
    exact Phase.holds_after (K := (CurvesKnows · w.base)) trivial fun _ _ => hknows
  | reread =>
    refine curves_other h rfl rfl (fun _ _ => ⟨_, rfl⟩) ?_
    exact Phase.holds_afterReread (K := (CurvesKnows · w.base)) trivial hknows
  | advance =>
    refine curves_moved h (fun state hstate target' htarget => ?_) fun answer _ => ?_
    · exact Handed.clears_of_advance hknows hheeds htarget
    · cases answer <;> trivial
  | resolve =>
    refine curves_other h rfl rfl (fun _ _ => ⟨_, rfl⟩) ?_
    exact Phase.holds_after (K := (CurvesKnows · w.base)) trivial fun _ _ => trivial
  | recordError =>
    refine @curves_moved H w o .idle _ (fun _ => .idle) h (fun state hstate target htarget => ?_)
      fun _ _ => trivial
    exact (hsound.cascaded target htarget).2.2 state hstate
  | recordFailedBlock =>
    exact @curves_other H _ w o .idle _ (fun _ => .idle) h rfl rfl (fun _ _ => ⟨_, rfl⟩) trivial

end curves

section rules

variable [DecidableEq H] (cfg : IndexerConfig)

def raceProtocol (slot : Slot) :
    Protocol (Call H CascadeCall) Failure (Answers (CascadeReply H)) (CascadeWorld H) where
  exec := cascadeExec slot
  allow call _ w :=
    match slot with
    | .factory => call.isLoad = true → w.base.ticked = false
    | .curves => w.base.heeds call = true
  rely := Gives slot.other
  guar := Gives slot
  keep w := Sound w.tables.states w.base
  refl := Gives.refl _
  trans := Gives.trans

variable {cfg} {slot : Slot}

omit [DecidableEq H] in
theorem Holds.kept (p : Phase H) : (raceProtocol slot).Kept (Holds slot p) where
  stable h hgives := ⟨hgives.sound h.1, h.2.gives hgives⟩
  keep h := h.1

theorem factory_tickRule :
    TickRule (raceProtocol .factory) (cfg.slotScanner .factory) (Holds (H := H) .factory)
      fun _ => True where
  kept := Holds.kept
  step hc _ _ hs hallow := factory_step hc hs hallow
  passes hpass h := by
    obtain ⟨hsound, hknows⟩ := id h
    cases hpass with
    | unrecorded _ => exact h
    | cascaded => exact ⟨hsound, factoryKnows_idle H hknows.1⟩
    | uncapped _ _ => exact h
    | capped _ _ => exact h
    | stop hp => cases hp <;> exact ⟨hsound, factoryKnows_idle H hknows.1⟩
  settled _ _ := trivial
  deleteAbove checkpoint target := by
    refine .await (Holds.kept _) (fun r => Holds.kept _) fun w o hw _ => ?_
    exact factory_delete hw
  maxBlock _ _ hmax := nomatch hmax
  addresses checkpoint boundary := .done (Holds.kept _) fun _ hs => hs
  process checkpoint batch reachedHash := by
    refine .await (Holds.kept _) (fun r => Holds.kept _) fun w o hw _ => ?_
    exact factory_store hw

theorem curves_tickRule :
    TickRule (raceProtocol .curves) (cfg.slotScanner .curves) (Holds (H := H) .curves)
      fun _ => True where
  kept := Holds.kept
  step hc _ _ hs hallow := curves_step hc hs hallow
  passes hpass h := by
    obtain ⟨hsound, hknows⟩ := id h
    cases hpass with
    | unrecorded _ => exact ⟨hsound, hknows.1⟩
    | cascaded => exact ⟨hsound, trivial⟩
    | uncapped hcap _ => cases hcap
    | capped hle _ => exact ⟨hsound, hknows.1, Below.mono (hknows.2 _ rfl) hle⟩
    | stop hp => exact ⟨hsound, trivial⟩
  settled _ _ := trivial
  deleteAbove checkpoint target := by
    refine .await (Holds.kept _) (fun r => Holds.kept _) fun w o hw _ => ?_
    exact curves_own hw hw.1.deleteTradesAbove ⟨rfl, rfl, rfl, rfl⟩ hw.2
  maxBlock checkpoint maxBlock hmax := by
    cases hmax
    refine .bind (Q := fun r => Holds .curves (Phase.after (fun factory : IndexerState H =>
      .ceiled checkpoint (some factory.lastProcessedBlock)) r)) ?_ (fun _ => ?_) fun _ _ hs => hs
    · refine .await (Holds.kept _) (fun r => Holds.kept _) fun w o hw _ => ?_
      exact curves_ceiling hw
    · exact .done (Holds.kept _) fun _ hs => hs
  addresses checkpoint boundary := .done (Holds.kept _) fun _ hs => hs
  process checkpoint batch reachedHash := by
    refine .await (Holds.kept _) (fun r => Holds.kept _) fun w o hw _ => ?_
    obtain ⟨⟨hmissed, hceiled⟩, hloaded, hreached⟩ : w.base.Reaches _ _ := hw.2
    exact curves_own hw hw.1.storeTrades ⟨rfl, rfl, rfl, rfl⟩
      ⟨⟨⟨hmissed, hceiled⟩, hloaded, hreached⟩, fun _ => List.mem_cons_self⟩

end rules

section runs

variable [DecidableEq H] (cfg : IndexerConfig)

def oneTick (c : CascadeState H) : CascadeLabel H → Bool
  | .call .factory _ => c.pending .factory fun call => !call.isLoad || !c.world.base.ticked
  | .env _ => false
  | .crash => false
  | _ => true

def cascadeHeeded (c : CascadeState H) : CascadeLabel H → Bool
  | .call .curves _ => c.pending .curves fun call => c.world.base.heeds call
  | _ => true

structure Started (w : CascadeWorld H) : Prop where
  rows : ∀ slot : Slot, ∃ state, w.tables.states slot.stream = some state
  placed : Placed w.base.tokens w.base.trades
  fresh : w.base.Fresh

/-- After a rollback the checkpoint of the curve stream is above the rollback point only over blocks
that were processed since, and no trade that was lost is below it. -/
def Rescanned (w : CascadeWorld H) : Prop :=
  ∀ target, w.base.cascaded = some target → ∀ state, w.tables.states .curves = some state →
    (∀ block, target < block → block ≤ state.lastProcessedBlock →
      ∃ window ∈ w.base.processed, window.1 ≤ block ∧ block ≤ window.2) ∧
    ∀ trade ∈ w.base.lost, trade.blockNumber ≤ state.lastProcessedBlock → trade ∈ w.base.trades

variable {cfg}

omit [DecidableEq H] in
theorem rescanned_of_sound {w : CascadeWorld H} (h : Sound w.tables.states w.base) :
    Rescanned w := by
  intro target htarget state hstate
  obtain ⟨-, hlost, hclears⟩ := h.cascaded target htarget
  have hclears := hclears state hstate
  simp only [clears, covers, Bool.or_eq_true, Bool.and_eq_true, decide_eq_true_eq, List.any_eq_true,
    List.all_eq_true] at hclears
  rcases hclears with hle | ⟨⟨window, hwindow, hfrom, hto⟩, hbelow⟩
  · refine ⟨fun block hlt hblock => by omega, fun trade htrade hblock => ?_⟩
    have := hlost trade htrade
    omega
  · refine ⟨fun block hlt hblock => ⟨window, hwindow, by omega, by omega⟩,
      fun trade htrade hblock => ?_⟩
    have := hbelow trade htrade
    omega

def raceOutline : (cascadeSystem cfg (H := H)).Outline
    fun c l => oneTick c l = true ∧ cascadeHeeded c l = true where
  protocol := raceProtocol
  idle slot := Holds slot .idle
  post slot := TickRule.Outcome (Holds slot) fun _ => True
  exec _ _ _ _ _ := rfl
  allow := @fun c slot o β k next hok htask => by
    cases slot with
    | factory =>
      have hone := hok.1
      simp only [oneTick, System.Config.pending_eq htask] at hone
      exact fun hload => by simpa [hload] using hone
    | curves =>
      have hheeded := hok.2
      simp only [cascadeHeeded, System.Config.pending_eq htask] at hheeded
      exact hheeded
  peer hne hgives := by
    simp only [raceProtocol, Slot.other_eq hne.symm]
    exact hgives
  rest h hgives := (Holds.kept .idle).stable h hgives
  start := @fun c slot _ _ hidle => by
    refine ⟨?_, fun _ _ => Gives.refl _ _⟩
    cases slot with
    | factory => exact factory_tickRule.tick _ hidle
    | curves => exact curves_tickRule.tick _ hidle
  finish h := ⟨h.1, fun _ _ => Gives.refl _ _⟩
  env hok := nomatch hok.1
  crash hok := nomatch hok.1

theorem cascade_rescanned {w : CascadeWorld H} (hw : Started w) {ls : List (CascadeLabel H)}
    {c : CascadeState H}
    (hrun : (cascadeSystem cfg).Run (fun c l => oneTick c l = true ∧ cascadeHeeded c l = true)
      (.rest w) ls c) : Rescanned c.world := by
  have hsound : Sound w.tables.states w.base :=
    { rows := hw.rows, placed := hw.placed
      cascading := fun _ hsome => nomatch hw.fresh.2.1.symm.trans hsome
      cascaded := fun _ hsome => nomatch hw.fresh.2.2.symm.trans hsome }
  have hidle : ∀ slot : Slot, Holds slot .idle w := by
    rintro (_ | _)
    · exact ⟨hsound, fun _ => hw.fresh⟩
    · exact ⟨hsound, trivial⟩
  have hinv := raceOutline.inv_run (raceOutline.inv_rest hidle) hrun
  exact rescanned_of_sound (raceOutline.keep_of_inv (i := .curves) hinv fun _ hs => hs.1)

section sample

def cascadeSample : IndexerConfig where
  startBlock := 0
  confirmationDepth := 1
  factory := 1
  factoryTopics := []
  curveTopics := []

def sampleTrade : TradeRow := { token := 7, blockNumber := 5, transactionHash := 70, logIndex := 0 }

def sampleRows : CascadeRows where
  tokens := [{ token := 7, launchBlock := 5 }]
  trades := []
  lost := []
  stale := []
  processed := []
  cascading := none
  cascaded := none
  rewound := []
  turn := { loaded := 0, ceiled := false, reached := 0, processed := false }
  ticked := false
  reorging := false
  checked := fun _ => false
  booted := true

def sampleCheckpoint (lastProcessedBlock : Nat) (hash : Option Nat) : IndexerState Nat where
  lastProcessedBlock
  lastProcessedBlockHash := hash
  lastError := none
  isPaused := false

def cascadeStart : CascadeWorld Nat where
  tables := (Tables.empty.setState .factory (sampleCheckpoint 5 (some 0))).setState .curves
    (sampleCheckpoint 3 none)
  base := sampleRows

def cascadeAnswer : Answers (CascadeReply Nat) where
  fault := none
  head := 7
  reached := 5
  ext := { hash := some 1, launches := [], trades := [sampleTrade] }

def answered (slot : Slot) (count : Nat) : List (CascadeLabel Nat) :=
  List.replicate count (.call slot cascadeAnswer)

def racedRun : List (CascadeLabel Nat) :=
  .start .curves :: answered .curves 6 ++ .start .factory :: answered .factory 5 ++
    .finish .factory :: answered .curves 3 ++ [.finish .curves]

def rejected : Answers (CascadeReply Nat) :=
  { cascadeAnswer with fault := some { failure := .error (some "P1001") "", applied := false } }

/-- The curve stream stores the trade of block 5 and fails to advance.  Its next tick reads the
ceiling before the rollback to block 3, and processes and passes block 4 after. -/
def reprocessedRun : List (CascadeLabel Nat) :=
  .start .curves :: answered .curves 7 ++ .call .curves rejected :: .finish .curves ::
    .start .curves :: answered .curves 3 ++ .start .factory :: answered .factory 5 ++
    .finish .factory :: .call .curves { cascadeAnswer with reached := 4 } :: answered .curves 5 ++
    [.finish .curves]

def bothDone (target last : Nat) (processed : List (Nat × Nat)) (c : CascadeState Nat) : Bool :=
  (c.tasks .factory).isNone && (c.tasks .curves).isNone && c.world.base.cascaded == some target &&
    c.world.base.lost == [sampleTrade] && c.world.base.processed == processed &&
    (c.world.tables.states .curves).any fun state => state.lastProcessedBlock == last

theorem cascadeStart_started : Started cascadeStart where
  rows slot := by cases slot <;> exact ⟨_, rfl⟩
  placed := ⟨by decide, fun _ h => (nomatch h)⟩
  fresh := ⟨rfl, rfl, rfl⟩

end sample

theorem cascade_rescanned_sample :
    ∃ c : CascadeState Nat, bothDone 3 4 [(4, 4)] c = true ∧ Rescanned c.world := by
  obtain ⟨c, hrun, hdone⟩ : ∃ c, (cascadeSystem { cascadeSample with confirmationDepth := 2 }).Run
      (fun c l => oneTick c l = true ∧ cascadeHeeded c l = true) (.rest cascadeStart)
        reprocessedRun c ∧ bothDone 3 4 [(4, 4)] c = true :=
    System.Run.exists_of_any (by decide)
  exact ⟨c, hdone, cascade_rescanned cascadeStart_started hrun⟩

theorem cascade_overtaken : ∃ c : CascadeState Nat,
    (cascadeSystem cascadeSample).Run (fun c l => oneTick c l = true) (.rest cascadeStart) racedRun c ∧
      c.tasks .factory = none ∧ c.tasks .curves = none ∧ ¬ Rescanned c.world := by
  obtain ⟨c, hrun, hdone⟩ : ∃ c, (cascadeSystem cascadeSample).Run (fun c l => oneTick c l = true)
      (.rest cascadeStart) racedRun c ∧ bothDone 4 5 [] c = true :=
    System.Run.exists_of_any (by decide)
  simp only [bothDone, Bool.and_eq_true, Option.isNone_iff_eq_none, beq_iff_eq,
    Option.any_eq_true] at hdone
  obtain ⟨⟨⟨⟨⟨hfactory, hcurves⟩, hcascaded⟩, -⟩, hprocessed⟩, state, hstate, hlast⟩ := hdone
  refine ⟨c, hrun, hfactory, hcurves, fun hrescanned => ?_⟩
  obtain ⟨window, hwindow, -⟩ := (hrescanned 4 hcascaded state hstate).1 5 (by decide) hlast.ge
  rw [hprocessed] at hwindow
  cases hwindow

end runs

end IndexerConfig

end Stunks.Indexer
