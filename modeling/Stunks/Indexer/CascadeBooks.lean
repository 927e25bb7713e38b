import Stunks.Indexer.Cascade

/-! What the tables owe to a rollback that is not over.  The reorg is past when a run begins:
`canonical` is the hash that the chain has at each block. -/

namespace Stunks.Indexer

open Database

namespace CascadeCrash

open CascadeRows (Placed)
open IndexerConfig (CascadeWorld cascadeExec cascadeBackend)

variable {H β : Type} [DecidableEq H] {canonical : Nat → H} {depth : Nat}

def offChain (canonical : Nat → H) (state : IndexerState H) : Bool :=
  state.lastProcessedBlock ≠ 0 &&
    state.lastProcessedBlockHash.any fun hash => hash ≠ canonical state.lastProcessedBlock

def astray (canonical : Nat → H) (states : States H) (stream : IndexerStream) : Bool :=
  (states stream).any (offChain canonical)

def Pending (canonical : Nat → H) (states : States H) (s : CascadeRows) : Prop :=
  astray canonical states .factory = true ∨ s.cascading ≠ none

def Low (s : CascadeRows) : Prop :=
  ∀ launch ∈ s.tokens, ∀ block ∈ s.stale, launch.launchBlock ≤ block

/-- What holds of the tables between any two steps.  A block that the curve stream has to process
again is above its checkpoint, or else a rollback that reaches below the block is still to come. -/
structure Accounted (canonical : Nat → H) (depth : Nat) (states : States H) (s : CascadeRows) :
    Prop where
  rows : ∀ slot : Slot, ∃ state, states slot.stream = some state
  placed : Placed s.tokens s.trades
  above : ∀ state, states .factory = some state → offChain canonical state = true →
    ∀ block ∈ s.stale, state.lastProcessedBlock - depth < block
  cascading : ∀ target, s.cascading = some target → ∀ block ∈ s.stale, target < block
  low : astray canonical states .factory = true ∨ s.reorging = true ∨ s.booted = false → Low s
  due : ∀ state, states .curves = some state → ∀ block ∈ s.stale,
    block ≤ state.lastProcessedBlock → Pending canonical states s ∨
      offChain canonical state = true ∧ state.lastProcessedBlock - depth < block
  factory : s.checked .factory = true → ¬ Pending canonical states s
  curves : s.checked .curves = true → astray canonical states .curves = false

theorem offChain_eq {state state' : IndexerState H}
    (hlast : state'.lastProcessedBlock = state.lastProcessedBlock)
    (hhash : state'.lastProcessedBlockHash = state.lastProcessedBlockHash) :
    offChain canonical state' = offChain canonical state := by
  simp only [offChain, hlast, hhash]

theorem offChain_unrecorded {state : IndexerState H} (h : state.lastProcessedBlockHash = none) :
    offChain canonical state = false := by
  simp [offChain, h]

theorem offChain_recorded {state : IndexerState H} {hash : H}
    (h : state.lastProcessedBlockHash = some hash)
    (hcanonical : hash = canonical state.lastProcessedBlock) :
    offChain canonical state = false := by
  simp [offChain, h, hcanonical]

theorem astray_eq {states : States H} {stream : IndexerStream} {state : IndexerState H}
    (h : states stream = some state) :
    astray canonical states stream = offChain canonical state := by
  simp [astray, h]

namespace Accounted

variable {states : States H} {s : CascadeRows} {t : Tables H} {state state' : IndexerState H}
  {target fromBlock toBlock : Nat}

theorem moveFactory (h : Accounted canonical depth t.states s)
    (hstate : t.states .factory = some state)
    (hoff : offChain canonical state' = offChain canonical state)
    (hlast : offChain canonical state' = true →
      state'.lastProcessedBlock = state.lastProcessedBlock) :
    Accounted canonical depth (t.setState .factory state').states s := by
  have hastray : astray canonical (t.setState .factory state').states .factory =
      astray canonical t.states .factory := by
    rw [astray_eq (t.setState_states_self ..), astray_eq hstate, hoff]
  have hpending : Pending canonical (t.setState .factory state').states s ↔
      Pending canonical t.states s := by
    rw [Pending, Pending, hastray]
  refine { h with rows := fun slot => Tables.setState_stands (h.rows slot) .factory state'
                  above := ?_, low := ?_, due := ?_, factory := ?_, curves := h.curves }
  · intro current hcurrent hcurrentOff
    rw [t.setState_states_self] at hcurrent
    cases hcurrent
    rw [hlast hcurrentOff]
    exact h.above state hstate (hoff.symm.trans hcurrentOff)
  · rw [hastray]
    exact h.low
  · intro current hcurrent block hblock hle
    rw [hpending]
    exact h.due current hcurrent block hblock hle
  · rw [hpending]
    exact h.factory

theorem moveCurves (h : Accounted canonical depth t.states s)
    (hdue : ∀ block ∈ s.stale, block ≤ state.lastProcessedBlock → Pending canonical t.states s ∨
      offChain canonical state = true ∧ state.lastProcessedBlock - depth < block)
    (hoff : s.checked .curves = true → offChain canonical state = false) :
    Accounted canonical depth (t.setState .curves state).states s := by
  refine { h with rows := fun slot => Tables.setState_stands (h.rows slot) .curves state
                  due := ?_, curves := ?_ }
  · intro current hcurrent block hblock hle
    rw [t.setState_states_self] at hcurrent
    cases hcurrent
    exact hdue block hblock hle
  · rw [astray_eq (t.setState_states_self ..)]
    exact hoff

theorem rewind (h : Accounted canonical depth t.states s) (hstate : t.states .factory = some state)
    (hoff : offChain canonical state = true) (hunrecorded : state'.lastProcessedBlockHash = none)
    {processed : List (Nat × Nat)} {turn : Turn} :
    Accounted canonical depth (t.setState .factory state').states
      { s with cascading := some (state.lastProcessedBlock - depth), processed, turn } := by
  have hastray : astray canonical (t.setState .factory state').states .factory = false := by
    rw [astray_eq (t.setState_states_self ..), offChain_unrecorded hunrecorded]
  refine { placed := h.placed, curves := h.curves
           rows := fun slot => Tables.setState_stands (h.rows slot) .factory state'
           above := ?_, cascading := ?_, low := ?_, due := ?_, factory := ?_ }
  · intro current hcurrent hcurrentOff
    rw [t.setState_states_self] at hcurrent
    cases hcurrent
    rw [offChain_unrecorded hunrecorded] at hcurrentOff
    cases hcurrentOff
  · rintro _ ⟨⟩
    exact h.above state hstate hoff
  · exact fun _ => h.low (.inl (by rw [astray_eq hstate, hoff]))
  · exact fun _ _ _ _ _ => .inl (.inr nofun)
  · exact fun hchecked => (h.factory hchecked (.inl (by rw [astray_eq hstate, hoff]))).elim

theorem cascade (h : Accounted canonical depth states s) (htarget : s.cascading = some target)
    (hfactory : astray canonical states .factory = false)
    (hlast : ∀ state, states .curves = some state → state.lastProcessedBlock ≤ target) :
    Accounted canonical depth states (s.cascade target) := by
  refine { rows := h.rows, placed := h.placed, above := h.above, low := h.low, cascading := nofun
           due := ?_, factory := ?_, curves := h.curves }
  · intro state hstate block hblock hle
    have hlow : block ≤ target := hle.trans (hlast state hstate)
    exact absurd (h.cascading target htarget block hblock) (by omega)
  · rintro - (hastray | hcascading)
    · exact nomatch hfactory.symm.trans hastray
    · exact hcascading rfl

theorem checkFactory (h : Accounted canonical depth states s)
    (hnot : ¬ Pending canonical states s) :
    Accounted canonical depth states (s.check .factory) :=
  { rows := h.rows, placed := h.placed, above := h.above, low := h.low, cascading := h.cascading
    due := h.due, factory := fun _ => hnot, curves := h.curves }

theorem checkCurves (h : Accounted canonical depth states s)
    (hnot : astray canonical states .curves = false) :
    Accounted canonical depth states (s.check .curves) :=
  { rows := h.rows, placed := h.placed, above := h.above, low := h.low, cascading := h.cascading
    due := h.due, factory := h.factory, curves := fun _ => hnot }

theorem deleteTokensAbove (h : Accounted canonical depth states s)
    (hstate : states .factory = some state) (hoff : offChain canonical state = true)
    (hcascading : s.cascading = none) :
    Accounted canonical depth states
      (s.deleteTokensAbove (state.lastProcessedBlock - depth)) := by
  have hastray : astray canonical states .factory = true := by rw [astray_eq hstate, hoff]
  have habove : ∀ block ∈ (s.deleteTokensAbove (state.lastProcessedBlock - depth)).stale,
      state.lastProcessedBlock - depth < block := by
    intro block hblock
    rcases List.mem_append.mp hblock with hblock | hblock
    · rcases List.mem_append.mp hblock with hold | hnew
      · exact h.above state hstate hoff block hold
      · obtain ⟨launch, hlaunch, rfl⟩ := List.mem_map.mp hnew
        simpa using (List.mem_filter.mp hlaunch).2
    · obtain ⟨trade, htrade, rfl⟩ := List.mem_map.mp hblock
      have hnone : Placed { s with lost := [] }.tokens { s with lost := [] }.trades := h.placed
      exact (hnone.lost_above htrade).resolve_left nofun
  refine { rows := h.rows, placed := h.placed.deleteTokensAbove, curves := h.curves, above := ?_
           cascading := ?_, low := ?_, due := ?_, factory := ?_ }
  · intro current hcurrent _
    cases hstate.symm.trans hcurrent
    exact habove
  · exact fun _ hsome => nomatch hcascading.symm.trans hsome
  · intro _ launch hlaunch block hblock
    have hkept : launch.launchBlock ≤ state.lastProcessedBlock - depth := by
      simpa using (List.mem_filter.mp hlaunch).2
    exact hkept.trans (habove block hblock).le
  · exact fun _ _ _ _ _ => .inl (.inl hastray)
  · exact fun hchecked _ => h.factory hchecked (.inl hastray)

theorem storeLaunches (h : Accounted canonical depth states s)
    (hfactory : astray canonical states .factory = false) (hbooted : s.booted = true)
    {launches : List LaunchRow} :
    Accounted canonical depth states (s.storeLaunches launches fromBlock toBlock) := by
  refine { h with placed := h.placed.storeLaunches, low := ?_ }
  rintro (hastray | hreorging | hdown)
  · exact nomatch hfactory.symm.trans hastray
  · cases hreorging
  · exact nomatch hbooted.symm.trans hdown

theorem deleteTradesAbove (h : Accounted canonical depth states s) :
    Accounted canonical depth states (s.deleteTradesAbove target) :=
  { h with placed := h.placed.deleteTradesAbove }

theorem storeTrades (h : Accounted canonical depth states s) {trades : List TradeRow} :
    Accounted canonical depth states (s.storeTrades trades fromBlock toBlock) where
  rows := h.rows
  placed := h.placed.storeTrades
  above state hstate hoff block hblock :=
    h.above state hstate hoff block (List.mem_filter.mp hblock).1
  cascading target htarget block hblock :=
    h.cascading target htarget block (List.mem_filter.mp hblock).1
  low hlow launch hlaunch block hblock :=
    h.low hlow launch hlaunch block (List.mem_filter.mp hblock).1
  due state hstate block hblock := h.due state hstate block (List.mem_filter.mp hblock).1
  factory := h.factory
  curves := h.curves

end Accounted

section leaves

variable {v w x : CascadeWorld H} {slot : Slot} {block bound : Nat} {checkpoint : IndexerState H}

variable (canonical depth) in
def Books (w : CascadeWorld H) : Prop := Accounted canonical depth w.tables.states w.base

variable (canonical) in
def Threatened (w : CascadeWorld H) (block : Nat) : Prop :=
  Pending canonical w.tables.states w.base ∨ ∃ target ∈ w.base.rewound, target < block

variable (canonical depth) in
structure FactoryLeaves (v w : CascadeWorld H) : Prop where
  books : Books canonical depth v → Books canonical depth w
  stale : Books canonical depth v → ∀ block ∈ w.base.stale,
    Threatened canonical w block ∨ block ∈ v.base.stale ∧ ¬ Threatened canonical v block
  curves : w.tables.states .curves = v.tables.states .curves ∨
    astray canonical w.tables.states .curves = false
  booted : v.base.booted = true → w.base.booted = true

variable (canonical depth) in
structure CurvesLeaves (v w : CascadeWorld H) : Prop where
  books : Books canonical depth v → Books canonical depth w
  factory : w.tables.states .factory = v.tables.states .factory
  cascading : w.base.cascading = v.base.cascading
  booted : v.base.booted = true → w.base.booted = true

variable (canonical depth) in
def Leaves : Slot → CascadeWorld H → CascadeWorld H → Prop
  | .factory => FactoryLeaves canonical depth
  | .curves => CurvesLeaves canonical depth

theorem FactoryLeaves.of_threatened (hbooks : Books canonical depth v → Books canonical depth w)
    (hstale : w.base.stale = v.base.stale)
    (hthreatened : Books canonical depth v → ∀ block ∈ v.base.stale,
      Threatened canonical v block → Threatened canonical w block)
    (hcurves : w.tables.states .curves = v.tables.states .curves ∨
      astray canonical w.tables.states .curves = false)
    (hbooted : v.base.booted = true → w.base.booted = true) :
    FactoryLeaves canonical depth v w where
  books := hbooks
  stale hv block hblock := by
    rw [hstale] at hblock
    by_cases hthreat : Threatened canonical v block
    · exact .inl (hthreatened hv block hblock hthreat)
    · exact .inr ⟨hblock, hthreat⟩
  curves := hcurves
  booted := hbooted

theorem Leaves.refl (slot : Slot) (w : CascadeWorld H) : Leaves canonical depth slot w w := by
  cases slot with
  | factory => exact .of_threatened id rfl (fun _ _ _ => id) (.inl rfl) id
  | curves => exact ⟨id, rfl, rfl, id⟩

theorem Leaves.trans (h : Leaves canonical depth slot v w) (h' : Leaves canonical depth slot w x) :
    Leaves canonical depth slot v x := by
  cases slot with
  | factory =>
    have h : FactoryLeaves canonical depth v w := h
    have h' : FactoryLeaves canonical depth w x := h'
    refine ⟨h'.books ∘ h.books, fun hv block hblock => ?_, ?_, h'.booted ∘ h.booted⟩
    · rcases h'.stale (h.books hv) block hblock with hthreat | ⟨hmem, hnot⟩
      · exact .inl hthreat
      · exact .inr ((h.stale hv block hmem).resolve_left hnot)
    · rcases h'.curves with hsame | hoff
      · rw [astray, hsame]
        exact h.curves
      · exact .inr hoff
  | curves =>
    exact ⟨h'.books ∘ h.books, h'.factory.trans h.factory, h'.cascading.trans h.cascading,
      h'.booted ∘ h.booted⟩

variable (canonical) in
def Excused (w : CascadeWorld H) (bound : Nat) : Prop :=
  ∀ block ∈ w.base.stale, block ≤ bound → Threatened canonical w block

variable (canonical depth) in
def Unchecked (w : CascadeWorld H) (checkpoint : IndexerState H) : Prop :=
  ∀ block ∈ w.base.stale, block ≤ checkpoint.lastProcessedBlock → Threatened canonical w block ∨
    offChain canonical checkpoint = true ∧ checkpoint.lastProcessedBlock - depth < block

theorem FactoryLeaves.excused (h : FactoryLeaves canonical depth v w)
    (hbooks : Books canonical depth v) (hv : Excused canonical v bound) :
    Excused canonical w bound := by
  intro block hblock hle
  rcases h.stale hbooks block hblock with hthreat | ⟨hmem, hnot⟩
  · exact hthreat
  · exact absurd (hv block hmem hle) hnot

theorem FactoryLeaves.unchecked (h : FactoryLeaves canonical depth v w)
    (hbooks : Books canonical depth v) (hv : Unchecked canonical depth v checkpoint) :
    Unchecked canonical depth w checkpoint := by
  intro block hblock hle
  rcases h.stale hbooks block hblock with hthreat | ⟨hmem, hnot⟩
  · exact .inl hthreat
  · exact .inr ((hv block hmem hle).resolve_left hnot)

end leaves

section knows

variable (canonical depth)

def FactoryKnows : Phase H → CascadeWorld H → Prop
  | .idle, w => w.base.cascading = none
  | .loaded checkpoint, w => w.tables.states .factory = some checkpoint ∧ w.base.cascading = none
  | .diverged checkpoint target, w | .deleted checkpoint target, w =>
    w.tables.states .factory = some checkpoint ∧ offChain canonical checkpoint = true ∧
      target = checkpoint.lastProcessedBlock - depth ∧ w.base.cascading = none
  | .rewound _ target rest, w => astray canonical w.tables.states .factory = false ∧
    (rest = [] ∧ w.base.cascading = none ∨ rest = [.curves] ∧ w.base.cascading = some target)
  | .ahead _ target dependent rest, w => astray canonical w.tables.states .factory = false ∧
    dependent = .curves ∧ rest = [] ∧ w.base.cascading = some target
  | .hashed _ batch reachedHash, w | .processed _ batch reachedHash, w =>
    ¬ Pending canonical w.tables.states w.base ∧ reachedHash = canonical batch.reachedBlock
  | _, w => ¬ Pending canonical w.tables.states w.base

def CurvesKnows : Phase H → CascadeWorld H → Prop
  | .loaded checkpoint, w => Unchecked canonical depth w checkpoint ∧
    (w.tables.states .curves = some checkpoint ∨ astray canonical w.tables.states .curves = false)
  | .checked checkpoint, w => Excused canonical w checkpoint.lastProcessedBlock ∧
    astray canonical w.tables.states .curves = false
  | .ceiled checkpoint _, w | .bounded checkpoint _, w | .addressed checkpoint _ _, w
  | .fetched checkpoint _, w => Excused canonical w checkpoint.lastProcessedBlock
  | .hashed checkpoint batch reachedHash, w =>
    Excused canonical w checkpoint.lastProcessedBlock ∧ reachedHash = canonical batch.reachedBlock
  | .processed _ batch reachedHash, w =>
    Excused canonical w batch.reachedBlock ∧ reachedHash = canonical batch.reachedBlock
  | .diverged _ target, w | .deleted _ target, w => Excused canonical w target
  | .rewound _ _ rest, _ => rest = []
  | .ahead .., _ => False
  | _, _ => True

def Knows : Slot → Phase H → CascadeWorld H → Prop
  | .factory => FactoryKnows canonical depth
  | .curves => CurvesKnows canonical depth

def Holds (slot : Slot) (p : Phase H) (w : CascadeWorld H) : Prop :=
  Books canonical depth w ∧ w.base.booted = true ∧ Knows canonical depth slot p w

variable {canonical depth} {slot : Slot} {p : Phase H} {v w : CascadeWorld H}

theorem not_pending {states : States H} {s : CascadeRows} :
    ¬ Pending canonical states s ↔
      astray canonical states .factory = false ∧ s.cascading = none := by
  simp [Pending]

theorem Knows.leaves (hbooks : Books canonical depth v) (h : Knows canonical depth slot p v)
    (hleaves : Leaves canonical depth slot.other v w) : Knows canonical depth slot p w := by
  cases slot with
  | factory =>
    obtain ⟨-, hfactory, hcascading, -⟩ : CurvesLeaves canonical depth v w := hleaves
    simp only [Knows] at h ⊢
    cases p <;> simpa only [FactoryKnows, Pending, astray, hfactory, hcascading] using h
  | curves =>
    have hleaves : FactoryLeaves canonical depth v w := hleaves
    have hoff (h : astray canonical v.tables.states .curves = false) :
        astray canonical w.tables.states .curves = false := by
      rcases hleaves.curves with hsame | hoff
      · rwa [astray, hsame]
      · exact hoff
    simp only [Knows] at h ⊢
    cases p with
    | loaded checkpoint =>
      refine ⟨hleaves.unchecked hbooks h.1, ?_⟩
      rcases h.2 with hrow | hastray
      · exact hleaves.curves.imp_left fun hsame => hsame.trans hrow
      · exact .inr (hoff hastray)
    | checked _ => exact ⟨hleaves.excused hbooks h.1, hoff h.2⟩
    | ceiled _ _ => exact hleaves.excused hbooks h
    | bounded _ _ => exact hleaves.excused hbooks h
    | addressed _ _ _ => exact hleaves.excused hbooks h
    | fetched _ _ => exact hleaves.excused hbooks h
    | hashed _ _ _ => exact ⟨hleaves.excused hbooks h.1, h.2⟩
    | processed _ _ _ => exact ⟨hleaves.excused hbooks h.1, h.2⟩
    | diverged _ _ => exact hleaves.excused hbooks h
    | deleted _ _ => exact hleaves.excused hbooks h
    | _ => exact h

theorem Leaves.books (h : Leaves canonical depth slot v w) :
    Books canonical depth v → Books canonical depth w := by
  cases slot with
  | factory => exact FactoryLeaves.books h
  | curves => exact CurvesLeaves.books h

theorem Leaves.booted (h : Leaves canonical depth slot v w) :
    v.base.booted = true → w.base.booted = true := by
  cases slot with
  | factory => exact FactoryLeaves.booted h
  | curves => exact CurvesLeaves.booted h

end knows

/-- The chain is read as it is, and no call fails between the factory's `rollbackTo` and the end of
its cascade.  Others may fail. -/
def reliable (canonical : Nat → H) (slot : Slot) (o : Answers (CascadeReply H)) :
    Call H CascadeCall β → Bool
  | .blockHash blockNumber => o.fault.isNone && o.ext.hash = some (canonical blockNumber)
  | .findState stream => slot ≠ .factory || stream ≠ .curves || o.fault.isNone
  | .updateState _ (.rollbackTo _ _) => slot ≠ .factory || o.fault.isNone
  | _ => true

section steps

variable {cfg : IndexerConfig} {slot : Slot} {p q : Phase H} {v w : CascadeWorld H}
  {o : Answers (CascadeReply H)}

theorem Leaves.of_same (hstates : v.tables.states = w.tables.states) {ticked : Bool} {turn : Turn}
    (hbase : v.base = { w.base with ticked, turn }) (slot : Slot) :
    Leaves canonical depth slot w v := by
  have hbooks (h : Books canonical depth w) : Books canonical depth v := by
    rw [Books, hstates, hbase]
    exact { h with }
  cases slot with
  | factory =>
    refine .of_threatened hbooks (by rw [hbase]) (fun _ block _ hthreat => ?_)
      (.inl (by rw [hstates])) fun hbooted => by rw [hbase]; exact hbooted
    rw [Threatened, hstates, hbase]
    exact hthreat
  | curves =>
    exact ⟨hbooks, by rw [hstates], by rw [hbase], fun hbooted => by rw [hbase]; exact hbooted⟩

theorem Holds.same (h : Holds canonical depth slot p w)
    (hstates : v.tables.states = w.tables.states) {ticked : Bool} {turn : Turn}
    (hbase : v.base = { w.base with ticked, turn }) (hq : Knows canonical depth slot q w) :
    Leaves canonical depth slot w v ∧ Holds canonical depth slot q v := by
  have hleaves : ∀ slot, Leaves canonical depth slot w v := Leaves.of_same hstates hbase
  exact ⟨hleaves slot, (hleaves slot).books h.1, (hleaves slot).booted h.2.1,
    hq.leaves h.1 (hleaves slot.other)⟩

theorem Holds.other {c : Call H CascadeCall β} {next : Except Failure β → Phase H}
    (h : Holds canonical depth slot p w) (hmove : c.isMove = false) (hown : c.isOwn = false)
    (hnote : ∀ applied answer, ∃ turn, w.base.note slot applied c answer = { w.base with turn })
    (hnext : Knows canonical depth slot (next (cascadeExec slot c o w).1) w) :
    Leaves canonical depth slot w (cascadeExec slot c o w).2 ∧
      Holds canonical depth slot (next (cascadeExec slot c o w).1) (cascadeExec slot c o w).2 := by
  obtain ⟨hstates, hbase⟩ := @IndexerConfig.cascadeExec_other H _ slot c o w hmove hown
  obtain ⟨turn, hturn⟩ := hnote o.applied (cascadeExec slot c o w).1
  exact h.same hstates (hbase.trans hturn) hnext

theorem blockHash_answer {n : Nat}
    (h : reliable canonical slot o (.blockHash n : Call H CascadeCall H) = true) :
    (cascadeExec slot (.blockHash n) o w).1 = .ok (canonical n) := by
  simp only [reliable, Bool.and_eq_true, Option.isNone_iff_eq_none, decide_eq_true_eq] at h
  simp [cascadeExec, Backend.exec_ok _ h.1, Backend.perform, cascadeBackend, h.2]

theorem afterCheck_canonical {checkpoint : IndexerState H}
    (hhash : checkpoint.lastProcessedBlockHash ≠ none)
    (hblock : checkpoint.lastProcessedBlock ≠ 0) :
    offChain canonical checkpoint = true ∧
        Phase.afterCheck depth checkpoint (.ok (canonical checkpoint.lastProcessedBlock)) =
          .diverged checkpoint (checkpoint.lastProcessedBlock - depth) ∨
      offChain canonical checkpoint = false ∧
        Phase.afterCheck depth checkpoint (.ok (canonical checkpoint.lastProcessedBlock)) =
          .checked checkpoint := by
  obtain ⟨hash, hrecorded⟩ := Option.ne_none_iff_exists'.mp hhash
  by_cases hsame : hash = canonical checkpoint.lastProcessedBlock
  · exact .inr (by simp [offChain, Phase.afterCheck, checkForReorg, hrecorded, hsame])
  · exact .inl (by simp [offChain, Phase.afterCheck, checkForReorg, hrecorded, hsame, hblock,
      rewindTarget_eq])

end steps

end CascadeCrash

end Stunks.Indexer
