import Mathlib.Algebra.GroupWithZero.Nat
import Mathlib.Algebra.Order.Group.Int
import Mathlib.Data.List.Sort
import Stunks.Lib.Table

/-! `rollup-aggregates.ts`: raw trades rolled up into hourly candles and volume snapshots. -/

namespace Stunks.Scripts

def robinhoodChainId : Nat := 4663

inductive TradeSide
  | buy
  | sell
  deriving DecidableEq

inductive TradeVenue
  | curve
  | uniswapV4
  deriving DecidableEq

structure TradeRow where
  id : Nat
  chainId : Nat
  tokenId : Nat
  venue : TradeVenue
  traderAddress : Nat
  side : TradeSide
  quoteAmount : Nat
  price : Nat
  blockNumber : Nat
  logIndex : Nat
  timestamp : Int
  deriving DecidableEq

structure TradeTable where
  rows : List TradeRow
  primaryKey : (rows.map (·.id)).Nodup

structure Candle where
  tokenId : Nat
  interval : Nat
  openTime : Int
  openPrice : Nat
  high : Nat
  low : Nat
  closePrice : Nat
  volume : Nat
  tradeCount : Nat
  deriving DecidableEq

structure VolumeSnapshot where
  tokenId : Nat
  windowStart : Int
  windowEnd : Int
  venue : TradeVenue
  volume : Nat
  buyVolume : Nat
  sellVolume : Nat
  tradeCount : Nat
  uniqueTraders : Nat
  openPrice : Nat
  closePrice : Nat
  deriving DecidableEq

structure Aggregates where
  candles : List Candle
  snapshots : List VolumeSnapshot
  deriving DecidableEq

def Aggregates.empty : Aggregates := { candles := [], snapshots := [] }

def intervalSeconds : Nat := 3600

def hoursPerBatch : Int := 6

def hour : Int := 3600000

/-- `date_trunc('hour', timestamp)`. -/
def hourOf (timestamp : Int) : Int := timestamp / hour * hour

def candleKey (c : Candle) : Nat × Nat × Int := (c.tokenId, c.interval, c.openTime)

def snapshotKey (s : VolumeSnapshot) : Nat × Int × TradeVenue := (s.tokenId, s.windowStart, s.venue)

def candleGroup (t : TradeRow) : Nat × Int := (t.tokenId, hourOf t.timestamp)

def snapshotGroup (t : TradeRow) : Nat × Int × TradeVenue :=
  (t.tokenId, hourOf t.timestamp, t.venue)

/-- `(array_agg(price ORDER BY "blockNumber", "logIndex"))[1]`. -/
def firstPrice (ts : List TradeRow) : Nat :=
  ((ts.insertionSort fun a b => a.blockNumber < b.blockNumber ∨
    (a.blockNumber = b.blockNumber ∧ a.logIndex ≤ b.logIndex)).map (·.price)).headD 0

def lastPrice (ts : List TradeRow) : Nat :=
  ((ts.insertionSort fun a b => b.blockNumber < a.blockNumber ∨
    (b.blockNumber = a.blockNumber ∧ b.logIndex ≤ a.logIndex)).map (·.price)).headD 0

def volumeOf (ts : List TradeRow) : Nat := (ts.map (·.quoteAmount)).sum

def candleOf (group : Nat × Int) (ts : List TradeRow) : Candle where
  tokenId := group.1
  interval := intervalSeconds
  openTime := group.2
  openPrice := firstPrice ts
  high := (ts.map (·.price)).max?.getD 0
  low := (ts.map (·.price)).min?.getD 0
  closePrice := lastPrice ts
  volume := volumeOf ts
  tradeCount := ts.length

def snapshotOf (group : Nat × Int × TradeVenue) (ts : List TradeRow) : VolumeSnapshot where
  tokenId := group.1
  windowStart := group.2.1
  windowEnd := group.2.1 + hour
  venue := group.2.2
  volume := volumeOf ts
  buyVolume := volumeOf (ts.filter fun t => t.side = .buy)
  sellVolume := volumeOf (ts.filter fun t => t.side = .sell)
  tradeCount := ts.length
  uniqueTraders := (ts.map (·.traderAddress)).dedup.length
  openPrice := firstPrice ts
  closePrice := lastPrice ts

/-- The trades of one batch: `WHERE "chainId" = … AND timestamp >= cursor AND timestamp < batchEnd`. -/
def selected (rows : List TradeRow) (batch : Int × Int) : List TradeRow :=
  rows.filter fun t =>
    t.chainId = robinhoodChainId ∧ batch.1 ≤ t.timestamp ∧ t.timestamp < batch.2

inductive Statement
  | candles (batch : Int × Int)
  | snapshots (batch : Int × Int)
  deriving DecidableEq

def Statement.batch : Statement → Int × Int
  | .candles batch => batch
  | .snapshots batch => batch

def Statement.exec (rows : List TradeRow) (db : Aggregates) : Statement → Aggregates
  | .candles batch => { db with
      candles := Table.upsertMany candleKey db.candles
        (Table.groupBy candleGroup candleOf (selected rows batch)) }
  | .snapshots batch => { db with
      snapshots := Table.upsertMany snapshotKey db.snapshots
        (Table.groupBy snapshotGroup snapshotOf (selected rows batch)) }

def batches (cursor completeThrough : Int) : List (Int × Int) :=
  if cursor < completeThrough then
    (cursor, min (cursor + hoursPerBatch * hour) completeThrough) ::
      batches (cursor + hoursPerBatch * hour) completeThrough
  else []
termination_by (completeThrough - cursor).toNat
decreasing_by
  unfold hoursPerBatch hour
  omega

def statementsOf (bs : List (Int × Int)) : List Statement :=
  bs.flatMap fun batch => [.candles batch, .snapshots batch]

def chainTrades (rows : List TradeRow) : List TradeRow :=
  rows.filter fun t => t.chainId = robinhoodChainId

/-- `SELECT MAX("openTime") FROM candles WHERE interval = 3600`. -/
def builtThrough (db : Aggregates) : Option Int :=
  ((db.candles.filter fun c => c.interval = intervalSeconds).map (·.openTime)).max?

def rollupRange (rows : List TradeRow) (db : Aggregates) : Option (Int × Int) := do
  let times := (chainTrades rows).map (·.timestamp)
  let earliest ← times.min?
  let latest ← times.max?
  let start := match builtThrough db with
    | some alreadyBuilt => alreadyBuilt + hour
    | none => hourOf earliest
  return (start, hourOf latest)

def statements (apply : Bool) (rows : List TradeRow) (db : Aggregates) : List Statement :=
  match rollupRange rows db with
  | none => []
  | some (start, completeThrough) =>
    if start ≥ completeThrough then []
    else if !apply then []
    else statementsOf (batches start completeThrough)

def runStatements (rows : List TradeRow) (db : Aggregates) (ss : List Statement) : Aggregates :=
  ss.foldl (Statement.exec rows) db

def rollup (rows : List TradeRow) (db : Aggregates) : Aggregates :=
  runStatements rows db (statements true rows db)

def interrupted (rows : List TradeRow) (k : Nat) : Aggregates :=
  runStatements rows .empty ((statements true rows .empty).take k)

def resumed (rows : List TradeRow) (k : Nat) : Nat → Aggregates
  | 0 => interrupted rows k
  | n + 1 => rollup rows (resumed rows k n)

def candleRow (rows : List TradeRow) (t : TradeRow) : Candle :=
  candleOf (candleGroup t) ((chainTrades rows).filter fun u => candleGroup u = candleGroup t)

def snapshotRow (rows : List TradeRow) (t : TradeRow) : VolumeSnapshot :=
  snapshotOf (snapshotGroup t) ((chainTrades rows).filter fun u => snapshotGroup u = snapshotGroup t)

structure Covered (rows : List TradeRow) (db : Aggregates) (t : TradeRow) : Prop where
  candle : candleRow rows t ∈ db.candles
  snapshot : snapshotRow rows t ∈ db.snapshots

def Aligned (time : Int) : Prop := hourOf time = time

theorem hourOf_aligned (time : Int) : Aligned (hourOf time) := by
  unfold Aligned hourOf hour
  omega

theorem Aligned.le_hourOf_iff {c t : Int} (h : Aligned c) : c ≤ hourOf t ↔ c ≤ t := by
  unfold Aligned hourOf hour at *
  omega

theorem lt_hourOf_add (time : Int) : time < hourOf time + hour := by
  unfold hourOf hour
  omega

theorem mem_selected {rows : List TradeRow} {batch : Int × Int} {t : TradeRow} :
    t ∈ selected rows batch ↔
      t ∈ chainTrades rows ∧ batch.1 ≤ t.timestamp ∧ t.timestamp < batch.2 := by
  simp [selected, chainTrades, and_assoc]

theorem selected_group {κ : Type} [DecidableEq κ] {key : TradeRow → κ}
    (hkey : ∀ t u, key t = key u → hourOf t.timestamp = hourOf u.timestamp)
    {rows : List TradeRow} {batch : Int × Int} (hlo : Aligned batch.1) (hhi : Aligned batch.2)
    {t : TradeRow} (ht : t ∈ selected rows batch) :
    ((selected rows batch).filter fun u => key u = key t) =
      (chainTrades rows).filter fun u => key u = key t := by
  have hbounds := (mem_selected.mp ht).2
  rw [selected, chainTrades, List.filter_filter, List.filter_filter]
  refine List.filter_congr fun u _ => ?_
  by_cases hu : key u = key t
  · have hhour := hkey u t hu
    have hloU := hlo.le_hourOf_iff (t := u.timestamp)
    have hloT := hlo.le_hourOf_iff (t := t.timestamp)
    have hhiU := hhi.le_hourOf_iff (t := u.timestamp)
    have hhiT := hhi.le_hourOf_iff (t := t.timestamp)
    have : batch.1 ≤ u.timestamp ∧ u.timestamp < batch.2 := by omega
    simp [hu, this]
  · simp [hu]

theorem candleGroup_hour (t u : TradeRow) (h : candleGroup t = candleGroup u) :
    hourOf t.timestamp = hourOf u.timestamp := congrArg Prod.snd h

theorem snapshotGroup_hour (t u : TradeRow) (h : snapshotGroup t = snapshotGroup u) :
    hourOf t.timestamp = hourOf u.timestamp := congrArg (fun k => k.2.1) h

structure RowsTo {ρ : Type} (row : TradeRow → ρ) (rows : List TradeRow) (table : List ρ) (b : Int) :
    Prop where
  covered : ∀ t ∈ chainTrades rows, t.timestamp < b → row t ∈ table
  only : ∀ r ∈ table, ∃ t ∈ chainTrades rows, r = row t ∧ t.timestamp < b

structure BuiltTo (rows : List TradeRow) (db : Aggregates) (b : Int) : Prop where
  aligned : Aligned b
  candles : RowsTo (candleRow rows) rows db.candles b
  snapshots : RowsTo (snapshotRow rows) rows db.snapshots b

theorem RowsTo.upsertMany {ρ κ : Type} [DecidableEq κ] {row : TradeRow → ρ} {key : ρ → κ}
    (hkey : ∀ {t u}, key (row t) = key (row u) → row t = row u) {rows : List TradeRow}
    {table new : List ρ} {b : Int} (h : RowsTo row rows table b) {batch : Int × Int}
    (hc : batch.1 ≤ b) (hnew : ∀ {r}, r ∈ new ↔ ∃ t ∈ selected rows batch, r = row t) :
    RowsTo row rows (Table.upsertMany key table new) (max b batch.2) := by
  have hsame : ∀ t, ∀ r ∈ new, key (row t) = key r → row t = r := by
    intro t r hr hk
    obtain ⟨u, -, rfl⟩ := hnew.mp hr
    exact hkey hk
  constructor
  · intro t ht hlt
    by_cases hold : t.timestamp < b
    · exact Table.mem_upsertMany_of_mem (h.covered t ht hold) (hsame t)
    · have hsel : t ∈ selected rows batch := mem_selected.mpr ⟨ht, by omega, by omega⟩
      exact Table.mem_upsertMany_of_new (hnew.mpr ⟨t, hsel, rfl⟩) (hsame t)
  · intro r hr
    cases Table.of_mem_upsertMany hr with
    | inl hr =>
      obtain ⟨t, ht, rfl⟩ := hnew.mp hr
      have := mem_selected.mp ht
      exact ⟨t, this.1, rfl, by omega⟩
    | inr hr =>
      obtain ⟨t, ht, rfl, hlt⟩ := h.only r hr
      exact ⟨t, ht, rfl, by omega⟩

theorem RowsTo.raise {ρ : Type} {row : TradeRow → ρ} {rows : List TradeRow} {table : List ρ}
    {b b' : Int} (h : RowsTo row rows table b) (hle : b ≤ b')
    (hnone : ∀ t ∈ chainTrades rows, b' ≤ t.timestamp) : RowsTo row rows table b' := by
  constructor
  · intro t ht hlt
    have := hnone t ht
    omega
  · intro r hr
    obtain ⟨t, ht, rfl, hlt⟩ := h.only r hr
    exact ⟨t, ht, rfl, by omega⟩

section Batch

variable {rows : List TradeRow} {db : Aggregates} {b : Int} {batch : Int × Int}

theorem mem_candleRows (hlo : Aligned batch.1) (hhi : Aligned batch.2) {c : Candle} :
    c ∈ Table.groupBy candleGroup candleOf (selected rows batch) ↔
      ∃ t ∈ selected rows batch, c = candleRow rows t := by
  rw [Table.mem_groupBy]
  constructor
  · rintro ⟨t, ht, rfl⟩
    exact ⟨t, ht, by rw [selected_group candleGroup_hour hlo hhi ht, candleRow]⟩
  · rintro ⟨t, ht, rfl⟩
    exact ⟨t, ht, by rw [selected_group candleGroup_hour hlo hhi ht, candleRow]⟩

theorem mem_snapshotRows (hlo : Aligned batch.1) (hhi : Aligned batch.2) {s : VolumeSnapshot} :
    s ∈ Table.groupBy snapshotGroup snapshotOf (selected rows batch) ↔
      ∃ t ∈ selected rows batch, s = snapshotRow rows t := by
  rw [Table.mem_groupBy]
  constructor
  · rintro ⟨t, ht, rfl⟩
    exact ⟨t, ht, by rw [selected_group snapshotGroup_hour hlo hhi ht, snapshotRow]⟩
  · rintro ⟨t, ht, rfl⟩
    exact ⟨t, ht, by rw [selected_group snapshotGroup_hour hlo hhi ht, snapshotRow]⟩

theorem candleRow_of_key {t u : TradeRow}
    (h : candleKey (candleRow rows t) = candleKey (candleRow rows u)) :
    candleRow rows t = candleRow rows u := by
  have hgroup : candleGroup t = candleGroup u := by
    simp only [candleKey, candleRow, candleOf, Prod.mk.injEq] at h
    exact Prod.ext h.1 h.2.2
  rw [candleRow, candleRow, hgroup]

theorem snapshotRow_of_key {t u : TradeRow}
    (h : snapshotKey (snapshotRow rows t) = snapshotKey (snapshotRow rows u)) :
    snapshotRow rows t = snapshotRow rows u := by
  have hgroup : snapshotGroup t = snapshotGroup u := h
  rw [snapshotRow, snapshotRow, hgroup]

theorem BuiltTo.exec_candles (h : BuiltTo rows db b) (hc : batch.1 ≤ b) (hlo : Aligned batch.1)
    (hhi : Aligned batch.2) : RowsTo (candleRow rows) rows
      ((Statement.candles batch).exec rows db).candles (max b batch.2) :=
  h.candles.upsertMany candleRow_of_key hc (mem_candleRows hlo hhi)

theorem BuiltTo.runBatch (h : BuiltTo rows db b) (batch : Int × Int) (hc : batch.1 ≤ b)
    (hlo : Aligned batch.1) (hhi : Aligned batch.2) :
    BuiltTo rows (runStatements rows db [.candles batch, .snapshots batch]) (max b batch.2) := by
  refine ⟨?_, h.exec_candles hc hlo hhi, ?_⟩
  · rcases max_choice b batch.2 with heq | heq
    · exact heq.symm ▸ h.aligned
    · exact heq.symm ▸ hhi
  · exact h.snapshots.upsertMany snapshotRow_of_key hc (mem_snapshotRows hlo hhi)

end Batch

theorem Aligned.nextCursor {c : Int} (h : Aligned c) : Aligned (c + hoursPerBatch * hour) := by
  unfold Aligned hourOf hoursPerBatch hour at *
  omega

theorem Aligned.batchEnd {c completeThrough : Int} (h : Aligned c) (h' : Aligned completeThrough) :
    Aligned (min (c + hoursPerBatch * hour) completeThrough) := by
  rcases min_choice (c + hoursPerBatch * hour) completeThrough with heq | heq
  · exact heq.symm ▸ h.nextCursor
  · exact heq.symm ▸ h'

theorem BuiltTo.runBatches {rows : List TradeRow} {db : Aggregates}
    {b cursor completeThrough : Int} (hlo : Aligned cursor) (hhi : Aligned completeThrough)
    (h : BuiltTo rows db b) (hle : cursor < completeThrough → cursor ≤ b) :
    ∃ b', BuiltTo rows (runStatements rows db (statementsOf (batches cursor completeThrough))) b' := by
  fun_induction batches cursor completeThrough generalizing db b with
  | case1 cursor hlt ih =>
    have hbatch := h.runBatch (cursor, _) (hle hlt) hlo (hlo.batchEnd hhi)
    refine ih hlo.nextCursor hbatch fun hmore => ?_
    rw [min_eq_left hmore.le]
    exact le_max_right ..
  | case2 => exact ⟨b, h⟩

section Run

variable {rows : List TradeRow} {db : Aggregates}

theorem chainTrades_min {earliest : Int}
    (h : ((chainTrades rows).map (·.timestamp)).min? = some earliest) {t : TradeRow}
    (ht : t ∈ chainTrades rows) : earliest ≤ t.timestamp :=
  (List.min?_eq_some_iff.mp h).2 _ (List.mem_map_of_mem ht)

theorem builtThrough_mem {built : Int} (h : builtThrough db = some built) :
    ∃ c ∈ db.candles, c.openTime = built := by
  obtain ⟨c, hc, rfl⟩ := List.mem_map.mp (List.max?_mem h)
  exact ⟨c, (List.mem_filter.mp hc).1, rfl⟩

theorem le_builtThrough {c : Candle} (hc : c ∈ db.candles) (hi : c.interval = intervalSeconds) :
    ∃ built, builtThrough db = some built ∧ c.openTime ≤ built := by
  have hmem : c.openTime ∈
      (db.candles.filter fun c => c.interval = intervalSeconds).map (·.openTime) :=
    List.mem_map_of_mem (List.mem_filter.mpr ⟨hc, decide_eq_true hi⟩)
  cases hb : builtThrough db with
  | none =>
    rw [List.max?_eq_none_iff.mp hb] at hmem
    cases hmem
  | some built => exact ⟨built, rfl, (List.max?_eq_some_iff.mp hb).2 _ hmem⟩

theorem rollupRange_eq {start completeThrough : Int}
    (h : rollupRange rows db = some (start, completeThrough)) :
    Aligned completeThrough ∧ ((∃ built, builtThrough db = some built ∧ start = built + hour) ∨
      ∃ earliest, builtThrough db = none ∧ (∀ t ∈ chainTrades rows, earliest ≤ t.timestamp) ∧
        start = hourOf earliest) := by
  simp only [rollupRange, Option.bind_eq_bind, Option.bind_eq_some_iff, Option.pure_def,
    Option.some.injEq, Prod.mk.injEq] at h
  obtain ⟨earliest, hmin, latest, -, hstart, rfl⟩ := h
  refine ⟨hourOf_aligned latest, ?_⟩
  cases hb : builtThrough db with
  | some built => exact .inl ⟨built, rfl, by rw [← hstart, hb]⟩
  | none => exact .inr ⟨earliest, rfl, fun t ht => chainTrades_min hmin ht, by rw [← hstart, hb]⟩

theorem statements_eq {start completeThrough : Int}
    (h : rollupRange rows db = some (start, completeThrough)) :
    statements true rows db = statementsOf (batches start completeThrough) := by
  simp only [statements, h]
  split
  · rw [batches, if_neg (by omega)]
    rfl
  · rfl

theorem BuiltTo.start_le {b start completeThrough : Int} (h : BuiltTo rows db b)
    (hr : rollupRange rows db = some (start, completeThrough)) :
    Aligned start ∧ ∃ b', BuiltTo rows db b' ∧ start ≤ b' := by
  obtain ⟨-, hbuilt | hfirst⟩ := rollupRange_eq hr
  · obtain ⟨built, hb, rfl⟩ := hbuilt
    obtain ⟨c, hc, rfl⟩ := builtThrough_mem hb
    obtain ⟨t, -, rfl, hlt⟩ := h.candles.only c hc
    have hopen : (candleRow rows t).openTime = hourOf t.timestamp := rfl
    have hhour := h.aligned.le_hourOf_iff (t := t.timestamp)
    have hb := h.aligned
    rw [hopen]
    refine ⟨?_, b, h, ?_⟩
    · unfold Aligned hourOf hour
      omega
    · unfold Aligned hourOf hour at *
      omega
  · obtain ⟨earliest, -, hmin, rfl⟩ := hfirst
    refine ⟨hourOf_aligned earliest, ?_⟩
    by_cases hle : hourOf earliest ≤ b
    · exact ⟨b, h, hle⟩
    · have hfloor : ∀ t ∈ chainTrades rows, hourOf earliest ≤ t.timestamp := by
        intro t ht
        have := hmin t ht
        unfold hourOf hour
        omega
      exact ⟨_, ⟨hourOf_aligned earliest, h.candles.raise (by omega) hfloor,
        h.snapshots.raise (by omega) hfloor⟩, le_rfl⟩

theorem BuiltTo.rollup {b : Int} (h : BuiltTo rows db b) :
    ∃ b', BuiltTo rows (Scripts.rollup rows db) b' := by
  unfold Scripts.rollup
  cases hr : rollupRange rows db with
  | none =>
    refine ⟨b, ?_⟩
    simp only [statements, hr]
    exact h
  | some range =>
    obtain ⟨start, completeThrough⟩ := range
    obtain ⟨hlo, b', h', hle⟩ := h.start_le hr
    rw [statements_eq hr]
    exact h'.runBatches hlo (rollupRange_eq hr).1 fun _ => hle

def Torn (rows : List TradeRow) (ss : List Statement) : Prop :=
  ∃ batch, ss.getLast? = some (.candles batch) ∧ selected rows batch ≠ []

structure Hole (rows : List TradeRow) (db : Aggregates) (t : TradeRow) : Prop where
  trade : t ∈ chainTrades rows
  candle : ∃ c ∈ db.candles, c.interval = intervalSeconds ∧ hourOf t.timestamp ≤ c.openTime
  snapshots : ∀ s ∈ db.snapshots, snapshotKey s ≠ snapshotGroup t

theorem torn_batch (batch batch' : Int × Int) (ss : List Statement) :
    Torn rows (.candles batch :: .snapshots batch' :: ss) ↔ Torn rows ss := by
  cases ss with
  | nil => simp [Torn]
  | cons s ss => simp [Torn]

theorem BuiltTo.hole {b : Int} {batch : Int × Int} (h : BuiltTo rows db b) (hc : batch.1 = b)
    (hhi : Aligned batch.2) {t : TradeRow} (ht : t ∈ selected rows batch) :
    Hole rows ((Statement.candles batch).exec rows db) t := by
  obtain ⟨htrade, hlo, hlt⟩ := mem_selected.mp ht
  have hcandles := h.exec_candles hc.le (hc ▸ h.aligned) hhi
  refine ⟨htrade, ⟨_, hcandles.covered t htrade (by omega), rfl, le_rfl⟩, ?_⟩
  intro s hs hkey
  obtain ⟨u, -, rfl, hu⟩ := h.snapshots.only s hs
  have hsame : hourOf u.timestamp = hourOf t.timestamp := snapshotGroup_hour u t hkey
  have ht' := h.aligned.le_hourOf_iff (t := t.timestamp)
  have hu' := h.aligned.le_hourOf_iff (t := u.timestamp)
  omega

/-- Stopped anywhere, the first run leaves a hole or a prefix of the hours, complete. -/
theorem BuiltTo.interrupted {cursor completeThrough : Int} (hhi : Aligned completeThrough)
    (h : BuiltTo rows db cursor) (k : Nat) :
    let ss := (statementsOf (batches cursor completeThrough)).take k
    (Torn rows ss ∧ ∃ t, Hole rows (runStatements rows db ss) t) ∨
      (¬Torn rows ss ∧ ∃ b, BuiltTo rows (runStatements rows db ss) b) := by
  fun_induction batches cursor completeThrough generalizing db k with
  | case1 cursor hlt ih =>
    have hbatch := h.runBatch (cursor, min (cursor + hoursPerBatch * hour) completeThrough) le_rfl
      h.aligned (h.aligned.batchEnd hhi)
    match k with
    | 0 => exact .inr ⟨by simp [Torn], cursor, h⟩
    | 1 =>
      cases hsel : selected rows
        (cursor, min (cursor + hoursPerBatch * hour) completeThrough) with
      | nil =>
        refine .inr ⟨?_, cursor, ?_⟩
        · rintro ⟨batch, hlast, hne⟩
          obtain rfl : (cursor, _) = batch := by simpa [statementsOf] using hlast
          exact hne hsel
        · have hnone : (Statement.candles
              (cursor, min (cursor + hoursPerBatch * hour) completeThrough)).exec rows db = db := by
            simp only [Statement.exec, hsel]
            rfl
          show BuiltTo rows (Statement.exec rows db (.candles _)) cursor
          rw [hnone]
          exact h
      | cons t ts =>
        refine .inl ⟨⟨_, rfl, by rw [hsel]; simp⟩, t, ?_⟩
        exact h.hole rfl (h.aligned.batchEnd hhi) (by rw [hsel]; simp)
    | k + 2 =>
      by_cases hmore : cursor + hoursPerBatch * hour < completeThrough
      · rw [min_eq_left hmore.le, max_eq_right (by unfold hoursPerBatch hour; omega)] at hbatch
        rw [min_eq_left hmore.le]
        cases ih hbatch k with
        | inl hhole => exact .inl ⟨(torn_batch _ _ _).mpr hhole.1, hhole.2⟩
        | inr hdone => exact .inr ⟨fun ht => hdone.1 ((torn_batch _ _ _).mp ht), hdone.2⟩
      · have hlast : batches (cursor + hoursPerBatch * hour) completeThrough = [] := by
          rw [batches, if_neg hmore]
        rw [hlast]
        refine .inr ⟨?_, ?_⟩
        · show ¬Torn rows (.candles _ :: .snapshots _ :: List.take k [])
          rw [torn_batch]
          simp [Torn]
        · show ∃ b, BuiltTo rows
            (runStatements rows db (.candles _ :: .snapshots _ :: List.take k [])) b
          rw [List.take_nil]
          exact ⟨_, hbatch⟩
  | case2 cursor =>
    exact .inr ⟨by simp [Torn, statementsOf],
      cursor, by simpa [statementsOf, runStatements] using h⟩

theorem builtTo_empty {b : Int} (hb : Aligned b) (h : ∀ t ∈ chainTrades rows, b ≤ t.timestamp) :
    BuiltTo rows .empty b := by
  refine ⟨hb, ⟨?_, ?_⟩, ⟨?_, ?_⟩⟩
  · exact fun t ht hlt => absurd hlt (not_lt.mpr (h t ht))
  · intro c hc
    cases hc
  · exact fun t ht hlt => absurd hlt (not_lt.mpr (h t ht))
  · intro s hs
    cases hs

theorem interrupted_cases (rows : List TradeRow) (k : Nat) :
    (Torn rows ((statements true rows .empty).take k) ∧ ∃ t, Hole rows (interrupted rows k) t) ∨
      (¬Torn rows ((statements true rows .empty).take k) ∧
        ∃ b, BuiltTo rows (interrupted rows k) b) := by
  unfold Scripts.interrupted
  cases hr : rollupRange rows .empty with
  | none =>
    have hnil : chainTrades rows = [] := by
      by_contra hne
      have hmap : (chainTrades rows).map (·.timestamp) ≠ [] := by simpa using hne
      obtain ⟨earliest, hmin⟩ := Option.ne_none_iff_exists'.mp
        (mt List.min?_eq_none_iff.mp hmap)
      obtain ⟨latest, hmax⟩ := Option.ne_none_iff_exists'.mp
        (mt List.max?_eq_none_iff.mp hmap)
      simp [rollupRange, hmin, hmax] at hr
    simp only [statements, hr, List.take_nil]
    exact .inr ⟨by simp [Torn], hourOf 0, builtTo_empty (hourOf_aligned 0) (by simp [hnil])⟩
  | some range =>
    obtain ⟨start, completeThrough⟩ := range
    rw [statements_eq hr]
    obtain ⟨hhi, hbuilt | hfirst⟩ := rollupRange_eq hr
    · obtain ⟨built, hb, -⟩ := hbuilt
      cases hb
    · obtain ⟨earliest, -, hmin, rfl⟩ := hfirst
      refine (builtTo_empty (hourOf_aligned earliest) fun t ht => ?_).interrupted hhi k
      have := hmin t ht
      unfold hourOf hour
      omega

variable {t : TradeRow}

theorem Hole.exec (h : Hole rows db t) {s : Statement}
    (hs : hourOf t.timestamp + hour ≤ s.batch.1) : Hole rows (s.exec rows db) t := by
  refine ⟨h.trade, ?_, ?_⟩
  · obtain ⟨c, hc, hi, hle⟩ := h.candle
    cases s with
    | candles batch =>
      obtain ⟨c', hc', hkey⟩ : ∃ c' ∈ (Statement.candles batch |>.exec rows db).candles,
          candleKey c' = candleKey c := Table.exists_key_upsertMany hc
      simp only [candleKey, Prod.mk.injEq] at hkey
      exact ⟨c', hc', hkey.2.1.trans hi, hle.trans_eq hkey.2.2.symm⟩
    | snapshots batch => exact ⟨c, hc, hi, hle⟩
  · intro s' hs' hkey
    cases s with
    | candles batch => exact h.snapshots s' hs' hkey
    | snapshots batch =>
      cases Table.of_mem_upsertMany hs' with
      | inl hnew =>
        obtain ⟨u, hu, rfl⟩ := Table.mem_groupBy.mp hnew
        have hlo := (mem_selected.mp hu).2.1
        have hsame : hourOf u.timestamp = hourOf t.timestamp := snapshotGroup_hour u t hkey
        have := lt_hourOf_add u.timestamp
        simp only [Statement.batch] at hs
        omega
      | inr hold => exact h.snapshots s' hold hkey

theorem Hole.run (h : Hole rows db t) {ss : List Statement}
    (hs : ∀ s ∈ ss, hourOf t.timestamp + hour ≤ s.batch.1) :
    Hole rows (runStatements rows db ss) t := by
  induction ss generalizing db with
  | nil => exact h
  | cons s ss ih =>
    have hhead := h.exec (hs s List.mem_cons_self)
    exact ih hhead fun s' hs' => hs s' (List.mem_cons_of_mem _ hs')

theorem cursor_le_batch {cursor completeThrough : Int} {batch : Int × Int}
    (h : batch ∈ batches cursor completeThrough) : cursor ≤ batch.1 := by
  fun_induction batches cursor completeThrough with
  | case1 cursor hlt ih =>
    cases h with
    | head => exact le_rfl
    | tail _ h =>
      have := ih h
      unfold hoursPerBatch hour at this
      omega
  | case2 => cases h

theorem Hole.rollup (h : Hole rows db t) : Hole rows (Scripts.rollup rows db) t := by
  unfold Scripts.rollup
  cases hr : rollupRange rows db with
  | none =>
    simp only [statements, hr]
    exact h
  | some range =>
    obtain ⟨start, completeThrough⟩ := range
    obtain ⟨c, hc, hi, hle⟩ := h.candle
    obtain ⟨built, hb, hle'⟩ := le_builtThrough hc hi
    obtain rfl : start = built + hour := by
      obtain ⟨-, hbuilt | hfirst⟩ := rollupRange_eq hr
      · obtain ⟨built', hb', rfl⟩ := hbuilt
        rw [hb] at hb'
        rw [Option.some.inj hb']
      · obtain ⟨_, hnone, -⟩ := hfirst
        cases hb.symm.trans hnone
    rw [statements_eq hr]
    refine h.run fun s hs => ?_
    obtain ⟨batch, hbatch, hs⟩ := List.mem_flatMap.mp hs
    have hcursor := cursor_le_batch hbatch
    have hsb : s.batch = batch := by
      simp only [List.mem_cons, List.not_mem_nil, or_false] at hs
      rcases hs with rfl | rfl <;> rfl
    rw [hsb]
    omega

end Run

end Stunks.Scripts
