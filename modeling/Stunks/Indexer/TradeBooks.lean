import Stunks.Indexer.CascadeBooks
import Stunks.Indexer.TradeStreams

namespace Stunks.Indexer

open Database Pons

variable {H β : Type}

def CurveCall.isDelete : CurveCall H β → Bool
  | .deleteTradesAbove _ => true
  | _ => false

theorem CurveTables.exec_tokens {reply : CurveReply} {s : CurveTables H} {call : CurveCall H β} :
    ∃ g : TradedToken → TradedToken, (s.exec reply call).2.tokens = s.tokens.map g ∧
      ∀ token, (g token).listing = token.listing := by
  have hid : ∃ g : TradedToken → TradedToken, s.tokens = s.tokens.map g ∧
      ∀ token, (g token).listing = token.listing :=
    ⟨id, (List.map_id _).symm, fun _ => rfl⟩
  cases call with
  | updateStatsMany rows =>
    simp only [exec]
    rcases updateStatsMany_tables (s := s) firstRow rows with hsame | hwritten
    · rw [hsame]
      exact hid
    · rw [hwritten]
      refine ⟨_, rfl, fun token => ?_⟩
      split <;> rfl
  | setPhase id phase =>
    refine ⟨_, rfl, fun token => ?_⟩
    split <;> rfl
  | _ => exact hid

theorem CurveTables.exec_trades {reply : CurveReply} {s : CurveTables H} {call : CurveCall H β}
    (h : call.isDelete = false) :
    ∃ new, (s.exec reply call).2.trades = Table.insertMany CurveTrade.key s.trades new := by
  cases call with
  | recordMany trades => exact ⟨trades, rfl⟩
  | deleteTradesAbove _ => cases h
  | updateStatsMany rows =>
    refine ⟨[], ?_⟩
    simp only [exec]
    rcases updateStatsMany_tables (s := s) firstRow rows with hsame | hwritten
    · rw [hsame]
      rfl
    · rw [hwritten]
      rfl
  | _ => exact ⟨[], rfl⟩

namespace IndexRows

/-- Rows are added, and what is known of the others for good is kept. -/
structure Grows (s t : IndexRows H) : Prop where
  tokens : s.tokens.map TokenRow.listing ⊆ t.tokens.map TokenRow.listing
  trades : s.trades.map CurveTrade.key ⊆ t.trades.map CurveTrade.key

variable {s t u : IndexRows H} {reply : CurveReply} {call : CurveCall H β}

theorem Grows.refl (s : IndexRows H) : Grows s s := ⟨fun _ h => h, fun _ h => h⟩

theorem Grows.trans (h : Grows s t) (h' : Grows t u) : Grows s u :=
  ⟨fun _ hx => h'.tokens (h.tokens hx), fun _ hx => h'.trades (h.trades hx)⟩

theorem withCurve_tokens : (s.withCurve (s.curve.exec reply call).2).tokens.map TokenRow.listing =
    s.tokens.map TokenRow.listing := by
  obtain ⟨g, htokens, hg⟩ := @CurveTables.exec_tokens _ _ reply s.curve call
  have hmapped : (s.withCurve (s.curve.exec reply call).2).tokens =
      s.tokens.map fun row => { row with token := g row.token } := by
    change List.zipWith (fun row token => { row with token }) s.tokens
      (s.curve.exec reply call).2.tokens = _
    rw [htokens, curve, List.map_map, List.zipWith_map_right, List.zipWith_self]
    rfl
  rw [hmapped, List.map_map]
  refine List.map_congr_left fun row _ => ?_
  exact congrArg (·, row.launchBlock) (hg row.token)

theorem withCurve_trades (h : call.isDelete = false) : ∃ new,
    (s.withCurve (s.curve.exec reply call).2).trades = Table.insertMany CurveTrade.key s.trades new :=
  CurveTables.exec_trades h

end IndexRows

namespace TradeConfig

open CascadeCrash (offChain)

variable [DecidableEq H] (cfg : TradeConfig H)

def launched (curve : Address) : Bool :=
  cfg.launches.any fun launch =>
    cfg.startBlock < launch.launchBlock && launch.token.curveAddress = curve

structure Due (lo hi : Nat) (raw : RawLog H) : Prop where
  onChain : OnChain cfg.hash cfg.chain raw
  isTrade : cfg.isTrade raw = true
  launched : cfg.launched raw.address = true
  lo : lo < raw.blockNumber
  hi : raw.blockNumber ≤ hi

def Listed (bound : Nat) (s : IndexRows H) : Prop :=
  ∀ launch ∈ cfg.launches, cfg.startBlock < launch.launchBlock → launch.launchBlock ≤ bound →
    launch.listing ∈ s.tokens.map TokenRow.listing

def Traded (bound : Nat) (s : IndexRows H) : Prop :=
  ∀ raw, cfg.Due cfg.startBlock bound raw → raw.key ∈ s.trades.map CurveTrade.key

def Done : IndexerStream → Nat → IndexRows H → Prop
  | .factory => cfg.Listed
  | .curves => cfg.Traded
  | _ => fun _ _ => True

structure Sound (stream : IndexerStream) (state : IndexerState H) (s : IndexRows H) : Prop where
  start : cfg.startBlock ≤ state.lastProcessedBlock
  hash : offChain (hashAt cfg.hash cfg.chain) state = false
  done : cfg.Done stream state.lastProcessedBlock s

structure Inv (w : IndexWorld H) : Prop where
  listings : ∀ x ∈ w.base.tokens.map TokenRow.listing, ∃ launch ∈ cfg.launches,
    cfg.startBlock < launch.launchBlock ∧ launch.listing = x
  keys : (w.base.trades.map CurveTrade.key).Nodup
  rows : ∀ stream state, w.tables.states stream = some state → cfg.Sound stream state w.base

structure Gives (v w : IndexWorld H) : Prop where
  inv : cfg.Inv v → cfg.Inv w
  grows : IndexRows.Grows v.base w.base

section gives

variable {cfg} {v w x : IndexWorld H} {s t : IndexRows H} {stream : IndexerStream} {bound : Nat}
  {state : IndexerState H}

omit [DecidableEq H] in
theorem Done.grows (h : cfg.Done stream bound s) (hgrows : IndexRows.Grows s t) :
    cfg.Done stream bound t := by
  cases stream with
  | factory => exact fun launch hlaunch hstart hle => hgrows.tokens (h launch hlaunch hstart hle)
  | curves => exact fun raw hraw => hgrows.trades (h raw hraw)
  | v4PoolManager => trivial
  | transfers => trivial

theorem Sound.grows (h : cfg.Sound stream state s) (hgrows : IndexRows.Grows s t) :
    cfg.Sound stream state t :=
  ⟨h.start, h.hash, h.done.grows hgrows⟩

theorem sound_start (hlast : state.lastProcessedBlock = cfg.startBlock)
    (hhash : state.lastProcessedBlockHash = none) : cfg.Sound stream state s where
  start := hlast.ge
  hash := CascadeCrash.offChain_unrecorded hhash
  done := by
    rw [hlast]
    cases stream with
    | factory => exact fun launch _ hstart hle => absurd hstart (Nat.not_lt.mpr hle)
    | curves => exact fun raw hraw => absurd hraw.lo (Nat.not_lt.mpr hraw.hi)
    | v4PoolManager => trivial
    | transfers => trivial

theorem Gives.refl (w : IndexWorld H) : cfg.Gives w w := ⟨id, .refl _⟩

theorem Gives.trans (h : cfg.Gives v w) (h' : cfg.Gives w x) : cfg.Gives v x :=
  ⟨h'.inv ∘ h.inv, h.grows.trans h'.grows⟩

theorem Gives.same (hstates : w.tables.states = v.tables.states) (hbase : w.base = v.base) :
    cfg.Gives v w := by
  refine ⟨fun h => ⟨?_, ?_, ?_⟩, by rw [hbase]; exact .refl _⟩
  · rw [hbase]
    exact h.listings
  · rw [hbase]
    exact h.keys
  · rw [hbase, hstates]
    exact h.rows

theorem Gives.checkpoint (hstates : w.tables.states = (v.tables.setState stream state).states)
    (hbase : w.base = v.base) (hsound : cfg.Sound stream state v.base) : cfg.Gives v w := by
  refine ⟨fun h => ⟨?_, ?_, fun other current hcurrent => ?_⟩, by rw [hbase]; exact .refl _⟩
  · rw [hbase]
    exact h.listings
  · rw [hbase]
    exact h.keys
  · rw [hbase]
    rw [hstates] at hcurrent
    by_cases hother : other = stream
    · subst hother
      rw [Tables.setState_states_self] at hcurrent
      cases hcurrent
      exact hsound
    · rw [v.tables.setState_states_ne state hother] at hcurrent
      exact h.rows other current hcurrent

theorem Gives.rows (hstates : w.tables.states = v.tables.states)
    (hgrows : IndexRows.Grows v.base w.base)
    (hlistings : ∀ x ∈ w.base.tokens.map TokenRow.listing, x ∈ v.base.tokens.map TokenRow.listing ∨
      ∃ launch ∈ cfg.launches, cfg.startBlock < launch.launchBlock ∧ launch.listing = x)
    (hkeys : (v.base.trades.map CurveTrade.key).Nodup → (w.base.trades.map CurveTrade.key).Nodup) :
    cfg.Gives v w where
  inv h :=
    { listings := fun x hx => (hlistings x hx).elim (h.listings x) id
      keys := hkeys h.keys
      rows := fun stream state hstate => by
        rw [hstates] at hstate
        exact (h.rows stream state hstate).grows hgrows }
  grows := hgrows

end gives

section calls

variable {cfg} {w : IndexWorld H} {o : Answers IndexReply} {stream : IndexerStream}

theorem gives_other {call : Call H (IndexCall H) β} (hmove : call.isMove = false)
    (hown : call.isOwn = false) : cfg.Gives w (cfg.indexBackend.exec call o w).2 ∧
      (cfg.indexBackend.exec call o w).2.base = w.base :=
  ⟨.same (Backend.exec_states _ hmove) (Backend.exec_base _ hown), Backend.exec_base _ hown⟩

theorem gives_updateState {data : StateUpdate H}
    (h : ∀ state, w.tables.states stream = some state →
      cfg.Sound stream (data.apply state) w.base) :
    cfg.Gives w (cfg.indexBackend.exec (.updateState stream data) o w).2 := by
  cases hstate : w.tables.states stream with
  | none =>
    rw [Backend.exec_updateState_none _ hstate]
    exact .refl w
  | some state =>
    rw [Backend.exec_updateState _ hstate]
    split
    · exact .checkpoint rfl rfl (h state hstate)
    · exact .refl w

theorem gives_upsertState (h : cfg.Inv w) :
    cfg.Gives w (cfg.indexBackend.exec (.upsertState stream cfg.startBlock) o w).2 ∧
      (cfg.indexBackend.exec (.upsertState stream cfg.startBlock) o w).2.base = w.base ∧
      ∀ state, (cfg.indexBackend.exec (.upsertState stream cfg.startBlock) o w).1 = .ok state →
        cfg.Sound stream state w.base := by
  have hbase : (cfg.indexBackend.exec (.upsertState stream cfg.startBlock) o w).2.base = w.base :=
    Backend.exec_base _ rfl
  cases hstate : w.tables.states stream with
  | some state =>
    obtain ⟨hsame, hanswer⟩ := @Backend.exec_upsertState _ _ _ _ cfg.indexBackend o _ _ _
      cfg.startBlock hstate
    refine ⟨by rw [hsame]; exact .refl w, hbase, fun answer hok => ?_⟩
    rw [hanswer answer hok]
    exact h.rows stream state hstate
  | none =>
    have hfresh : cfg.Sound stream (freshState H cfg.startBlock) w.base := sound_start rfl rfl
    rcases @Backend.exec_upsertState_new _ _ _ _ cfg.indexBackend o _ _ cfg.startBlock hstate with
      ⟨hsame, hanswer⟩ | ⟨hnew, hanswer⟩
    · exact ⟨by rw [hsame]; exact .refl w, hbase, fun answer hok => absurd hok (hanswer answer)⟩
    · refine ⟨by rw [hnew]; exact .checkpoint rfl rfl hfresh, hbase, fun answer hok => ?_⟩
      rw [hanswer answer hok]
      exact hfresh

theorem gives_curve {call : CurveCall H β} (h : call.isDelete = false) :
    cfg.Gives w (cfg.indexBackend.exec (.ext (.inr call)) o w).2 := by
  rcases @Backend.exec_ext _ _ _ _ _ cfg.indexBackend (.inr call) o w with ⟨-, hbase⟩ | ⟨hbase, -⟩
  · exact .same (Backend.exec_states _ rfl) hbase
  · replace hbase : (cfg.indexBackend.exec (.ext (.inr call)) o w).2.base =
        w.base.withCurve (w.base.curve.exec o.ext.curve call).2 := hbase
    obtain ⟨new, hnew⟩ := @IndexRows.withCurve_trades _ _ w.base o.ext.curve call h
    refine .rows (Backend.exec_states _ rfl) ?_ ?_ ?_
    · rw [hbase]
      refine ⟨by rw [IndexRows.withCurve_tokens]; exact fun _ hx => hx, fun key hkey => ?_⟩
      obtain ⟨trade, htrade, rfl⟩ := List.mem_map.mp hkey
      rw [hnew]
      exact List.mem_map_of_mem (Table.mem_insertMany_of_mem htrade)
    · rw [hbase, IndexRows.withCurve_tokens]
      exact fun _ hx => .inl hx
    · rw [hbase, hnew]
      exact Table.nodup_insertMany

theorem gives_recordLaunches {fromBlock toBlock : Nat} (h : cfg.startBlock < fromBlock) :
    cfg.Gives w
      (cfg.indexBackend.exec (.ext (.inl (.recordLaunches fromBlock toBlock))) o w).2 := by
  rcases @Backend.exec_ext _ _ _ _ _ cfg.indexBackend (.inl (.recordLaunches fromBlock toBlock)) o w
    with ⟨-, hbase⟩ | ⟨hbase, -⟩
  · exact .same (Backend.exec_states _ rfl) hbase
  · refine .rows (Backend.exec_states _ rfl) ?_ ?_ ?_
    · rw [hbase]
      refine ⟨fun x hx => ?_, fun _ hkey => hkey⟩
      obtain ⟨row, hrow, rfl⟩ := List.mem_map.mp hx
      exact List.mem_map_of_mem (Table.mem_insertMany_of_mem hrow)
    · rw [hbase]
      intro x hx
      obtain ⟨row, hrow, rfl⟩ := List.mem_map.mp hx
      refine (Table.of_mem_insertMany hrow).imp List.mem_map_of_mem fun hnew => ?_
      obtain ⟨hlaunch, hwindow⟩ := List.mem_filter.mp (List.mem_filter.mp hnew).1
      simp only [Bool.and_eq_true, decide_eq_true_eq] at hwindow
      exact ⟨row, hlaunch, by omega, rfl⟩
    · rw [hbase]
      exact id

theorem gives_read {call : LaunchCall β}
    (h : (cfg.launchExec o.ext w.base call).2 = w.base) :
    cfg.Gives w (cfg.indexBackend.exec (.ext (.inl call)) o w).2 ∧
      (cfg.indexBackend.exec (.ext (.inl call)) o w).2.base = w.base := by
  have hbase : (cfg.indexBackend.exec (.ext (.inl call)) o w).2.base = w.base := by
    rcases @Backend.exec_ext _ _ _ _ _ cfg.indexBackend (.inl call) o w with
      ⟨-, hbase⟩ | ⟨hbase, -⟩
    · exact hbase
    · exact hbase.trans h
  exact ⟨.same (Backend.exec_states _ rfl) hbase, hbase⟩

end calls

end TradeConfig

end Stunks.Indexer
