import Mathlib.Algebra.BigOperators.Group.List.Basic
import Stunks.Database.Explore
import Stunks.Database.Trending
import Stunks.Lib.Chunks
import Stunks.Scripts.Retention

/-! `score-trending.ts`: trending scores read off the volume snapshots. -/

namespace Stunks.Scripts.ScoreTrending

open Database
open Database.Explore (ModerationStatus)

def writeChunk : Nat := 1000

structure Token where
  id : Nat
  chainId : Nat
  totalSupply : Int
  marketCap : Int
  moderationStatus : ModerationStatus
  trendingScore : Int
  deriving DecidableEq

def Descending {α : Type} (column : α → Int) (a b : α) : Prop := column b ≤ column a

instance {α : Type} (column : α → Int) : DecidableRel (Descending column) := fun a b =>
  inferInstanceAs (Decidable (column b ≤ column a))

instance {α : Type} (column : α → Int) : Std.Total (Descending column) where
  total a b := (le_total (column a) (column b)).symm

instance {α : Type} (column : α → Int) : IsTrans α (Descending column) where
  trans _ _ _ hab hbc := le_trans hbc hab

structure Bounds where
  hi : Int
  mid : Int
  lo : Int

def boundsOf (anchor window : Int) : Bounds where
  hi := anchor
  mid := anchor - window
  lo := anchor - window * 2

def anchorOf (snapshots : List VolumeSnapshot) : Option Int := (snapshots.map (·.windowEnd)).max?

/-- `WHERE "windowStart" >= lo AND "windowStart" < hi`. -/
def inWindow (lo hi : Int) (v : VolumeSnapshot) : Bool := lo ≤ v.windowStart ∧ v.windowStart < hi

structure Recent where
  tokenId : Nat
  volume : Nat
  buys : Nat
  sells : Nat
  trades : Nat
  traders : Nat
  deriving DecidableEq

def recentOf (tokenId : Nat) (vs : List VolumeSnapshot) : Recent where
  tokenId
  volume := (vs.map (·.volume)).sum
  buys := (vs.map (·.buyVolume)).sum
  sells := (vs.map (·.sellVolume)).sum
  trades := (vs.map (·.tradeCount)).sum
  traders := (vs.map (·.uniqueTraders)).sum

def recent (b : Bounds) (snapshots : List VolumeSnapshot) : List Recent :=
  Table.groupBy (·.tokenId) recentOf (snapshots.filter (inWindow b.mid b.hi))

def priorVolume (b : Bounds) (snapshots : List VolumeSnapshot) (tokenId : Nat) : Nat :=
  (((snapshots.filter (inWindow b.lo b.mid)).filter fun v => v.tokenId = tokenId).map
    (·.volume)).sum

/-- `DISTINCT ON ("tokenId") … ORDER BY "tokenId", "windowStart" DESC`: of the venues of one hour,
whichever the table has first. -/
def priorClose (b : Bounds) (snapshots : List VolumeSnapshot) (tokenId : Nat) : Option Nat :=
  ((snapshots.filter fun v => v.windowStart < b.mid ∧ v.tokenId = tokenId).insertionSort
    (Descending (·.windowStart))).head?.map (·.closePrice)

def priceScale : Int := 10 ^ 27

/-- `COALESCE(div("closePrice" * "totalSupply", 10 ^ 27), 0)`. -/
def priorMarketCap (close : Option Nat) (token : Token) : Int :=
  match close with
  | some price => (price * token.totalSupply).tdiv priceScale
  | none => 0

structure Row where
  tokenId : Nat
  recentVolume : Nat
  priorVolume : Nat
  uniqueTraders : Nat
  tradeCount : Nat
  buyVolume : Nat
  sellVolume : Nat
  marketCap : Int
  priorMarketCap : Int
  deriving DecidableEq

def rowOf (b : Bounds) (snapshots : List VolumeSnapshot) (r : Recent) (token : Token) : Row where
  tokenId := r.tokenId
  recentVolume := r.volume
  priorVolume := priorVolume b snapshots r.tokenId
  uniqueTraders := r.traders
  tradeCount := r.trades
  buyVolume := r.buys
  sellVolume := r.sells
  marketCap := token.marketCap
  priorMarketCap := priorMarketCap (priorClose b snapshots r.tokenId) token

def Token.listed (token : Token) : Bool :=
  token.moderationStatus ≠ .hidden ∧ token.moderationStatus ≠ .flagged

def rowsOf (b : Bounds) (snapshots : List VolumeSnapshot) (tokens : List Token) : List Row :=
  (recent b snapshots).flatMap fun r =>
    (tokens.filter fun token => token.id = r.tokenId ∧ token.listed).map (rowOf b snapshots r)

def idText (tokenId : Nat) : String := String.ofList (Nat.toDigits 10 tokenId)

def Row.input (row : Row) : TrendingInput where
  tokenId := idText row.tokenId
  recentVolume := row.recentVolume
  priorVolume := row.priorVolume
  uniqueTraders := row.uniqueTraders
  tradeCount := row.tradeCount
  buyVolume := row.buyVolume
  sellVolume := row.sellVolume
  marketCap := row.marketCap
  priorMarketCap := row.priorMarketCap

def ranked (rows : List Row) : Except JsError (List TrendingScore) :=
  (scoreTrending (rows.map Row.input)).map fun scored =>
    scored.insertionSort (Descending (·.scoreBps))

inductive Write
  | clear
  | scores (chunk : List TrendingScore)

def Token.clear (token : Token) : Token :=
  if token.chainId = robinhoodChainId ∧ token.trendingScore > 0 then
    { token with trendingScore := 0 }
  else token

def Token.unscored (token : Token) : Token := { token with trendingScore := 0 }

/-- `UPDATE tokens … FROM (VALUES …) AS v(id, score) WHERE t.id = v.id`. -/
def Token.setScore (chunk : List TrendingScore) (token : Token) : Token :=
  match chunk.find? fun entry => entry.tokenId = idText token.id with
  | some entry => { token with trendingScore := entry.scoreBps }
  | none => token

def Write.exec (tokens : List Token) : Write → List Token
  | .clear => tokens.map Token.clear
  | .scores chunk => tokens.map (Token.setScore chunk)

def writes (dryRun : Bool) (window : Int) (snapshots : List VolumeSnapshot) (tokens : List Token) :
    List Write :=
  match anchorOf snapshots with
  | none => []
  | some anchor =>
    let rows := rowsOf (boundsOf anchor window) snapshots tokens
    if rows.length = 0 then []
    else match ranked rows with
      | .error _ => []
      | .ok scored =>
        if dryRun then []
        else .clear :: (Chunks.ofSize writeChunk scored).map .scores

def runWrites (tokens : List Token) (ws : List Write) : List Token := ws.foldl Write.exec tokens

def windowTrades (trades : List TradeRow) (tokenId : Nat) (lo hi : Int) : List TradeRow :=
  (chainTrades trades).filter fun t =>
    t.tokenId = tokenId ∧ lo ≤ hourOf t.timestamp ∧ hourOf t.timestamp < hi

/-- A wallet counts once for each hour and venue that it trades in. -/
def traderHours (trades : List TradeRow) : Nat :=
  ((trades.map snapshotGroup).dedup.map fun group =>
    ((trades.filter fun t => snapshotGroup t = group).map (·.traderAddress)).dedup.length).sum

def ClosedAt (trades : List TradeRow) (tokenId : Nat) (mid : Int) : Option Nat → Prop
  | none => ∀ t ∈ chainTrades trades, t.tokenId = tokenId → mid ≤ hourOf t.timestamp
  | some price => ∃ t ∈ chainTrades trades, t.tokenId = tokenId ∧ hourOf t.timestamp < mid ∧
      (∀ u ∈ chainTrades trades, u.tokenId = tokenId → hourOf u.timestamp < mid →
        hourOf u.timestamp ≤ hourOf t.timestamp) ∧
      price = lastPrice ((chainTrades trades).filter fun u => snapshotGroup u = snapshotGroup t)

structure Measured (trades : List TradeRow) (b : Bounds) (token : Token) (row : Row) : Prop where
  tokenId : row.tokenId = token.id
  recentVolume : row.recentVolume = volumeOf (windowTrades trades token.id b.mid b.hi)
  priorVolume : row.priorVolume = volumeOf (windowTrades trades token.id b.lo b.mid)
  uniqueTraders : row.uniqueTraders = traderHours (windowTrades trades token.id b.mid b.hi)
  wallets : ((windowTrades trades token.id b.mid b.hi).map (·.traderAddress)).dedup.length ≤
    row.uniqueTraders
  tradeCount : row.tradeCount = (windowTrades trades token.id b.mid b.hi).length
  buyVolume : row.buyVolume =
    volumeOf ((windowTrades trades token.id b.mid b.hi).filter fun t => t.side = .buy)
  sellVolume : row.sellVolume =
    volumeOf ((windowTrades trades token.id b.mid b.hi).filter fun t => t.side = .sell)
  marketCap : row.marketCap = token.marketCap
  priorMarketCap : ∃ close, ClosedAt trades token.id b.mid close ∧
    row.priorMarketCap = ScoreTrending.priorMarketCap close token

theorem traders_le_traderHours (trades : List TradeRow) :
    (trades.map (·.traderAddress)).dedup.length ≤ traderHours trades := by
  have hsub : (trades.map (·.traderAddress)).dedup ⊆
      (trades.map snapshotGroup).dedup.flatMap fun group =>
        ((trades.filter fun t => snapshotGroup t = group).map (·.traderAddress)).dedup := by
    intro trader htrader
    obtain ⟨t, ht, rfl⟩ := List.mem_map.mp (List.mem_dedup.mp htrader)
    refine List.mem_flatMap.mpr
      ⟨snapshotGroup t, List.mem_dedup.mpr (List.mem_map_of_mem ht), List.mem_dedup.mpr ?_⟩
    exact List.mem_map_of_mem (List.mem_filter.mpr ⟨ht, decide_eq_true rfl⟩)
  have hle := (List.subperm_of_subset (List.nodup_dedup _) hsub).length_le
  rwa [List.length_flatMap] at hle

section Measured

variable {trades : List TradeRow} {snapshots : List VolumeSnapshot} {n lo hi : Int} {tokenId : Nat}

theorem mem_windowTrades {t : TradeRow} : t ∈ windowTrades trades tokenId lo hi ↔
    t ∈ chainTrades trades ∧ t.tokenId = tokenId ∧ lo ≤ hourOf t.timestamp ∧
      hourOf t.timestamp < hi := by
  simp [windowTrades]

theorem windowTrades_group {t : TradeRow} (ht : t ∈ windowTrades trades tokenId lo hi) :
    ((windowTrades trades tokenId lo hi).filter fun u => snapshotGroup u = snapshotGroup t) =
      (chainTrades trades).filter fun u => snapshotGroup u = snapshotGroup t := by
  obtain ⟨-, htoken, hlo, hhi⟩ := mem_windowTrades.mp ht
  rw [windowTrades, List.filter_filter]
  refine List.filter_congr fun u _ => ?_
  by_cases hu : snapshotGroup u = snapshotGroup t
  · have hhour := snapshotGroup_hour u t hu
    have htokens : u.tokenId = t.tokenId := congrArg Prod.fst hu
    simp [hu, hhour, htokens, htoken, hlo, hhi]
  · simp [hu]

variable (hrows : RowsTo (snapshotRow trades) trades snapshots n)
  (hkeys : (snapshots.map snapshotKey).Nodup) (hn : Aligned n) (hhi : hi ≤ n)

include hrows hn hhi

theorem mem_windowSnapshots {v : VolumeSnapshot} :
    v ∈ (snapshots.filter (inWindow lo hi)).filter (fun v => v.tokenId = tokenId) ↔
      ∃ t ∈ windowTrades trades tokenId lo hi, v = snapshotRow trades t := by
  simp only [List.mem_filter, inWindow, decide_eq_true_eq]
  constructor
  · rintro ⟨⟨hv, hwindow⟩, rfl⟩
    obtain ⟨t, ht, rfl, -⟩ := hrows.only v hv
    exact ⟨t, mem_windowTrades.mpr ⟨ht, rfl, hwindow⟩, rfl⟩
  · rintro ⟨t, ht, rfl⟩
    obtain ⟨hchain, rfl, hwindow⟩ := mem_windowTrades.mp ht
    have hhour := hn.le_hourOf_iff (t := t.timestamp)
    exact ⟨⟨hrows.covered t hchain (by omega), hwindow⟩, rfl⟩

include hkeys

theorem sum_window {f : VolumeSnapshot → Nat} {g : List TradeRow → Nat}
    (hf : ∀ group ts, f (snapshotOf group ts) = g ts) :
    (((snapshots.filter (inWindow lo hi)).filter fun v => v.tokenId = tokenId).map f).sum =
      (((windowTrades trades tokenId lo hi).map snapshotGroup).dedup.map fun group =>
        g ((windowTrades trades tokenId lo hi).filter fun t => snapshotGroup t = group)).sum := by
  have hmem := fun v => @mem_windowSnapshots trades snapshots n lo hi tokenId hrows hn hhi v
  have hperm : (((snapshots.filter (inWindow lo hi)).filter fun v => v.tokenId = tokenId).map
      snapshotKey).Perm ((windowTrades trades tokenId lo hi).map snapshotGroup).dedup := by
    refine (List.perm_ext_iff_of_nodup ?_ (List.nodup_dedup _)).mpr fun group => ?_
    · exact hkeys.sublist ((List.filter_sublist.trans List.filter_sublist).map _)
    · rw [List.mem_dedup, List.mem_map, List.mem_map]
      constructor
      · rintro ⟨v, hv, rfl⟩
        obtain ⟨t, ht, rfl⟩ := (hmem v).mp hv
        exact ⟨t, ht, rfl⟩
      · rintro ⟨t, ht, rfl⟩
        exact ⟨_, (hmem _).mpr ⟨t, ht, rfl⟩, rfl⟩
  have hcolumn := hperm.map fun group =>
    g ((windowTrades trades tokenId lo hi).filter fun t => snapshotGroup t = group)
  rw [← hcolumn.sum_eq, List.map_map]
  refine congrArg List.sum (List.map_congr_left fun v hv => ?_)
  obtain ⟨t, ht, rfl⟩ := (hmem v).mp hv
  show f (snapshotRow trades t) =
    g ((windowTrades trades tokenId lo hi).filter fun u => snapshotGroup u = snapshotGroup t)
  rw [windowTrades_group ht, snapshotRow, hf]

variable {f : VolumeSnapshot → Nat} {w : TradeRow → Nat}

theorem sum_window_trades
    (hf : ∀ group ts, f (snapshotOf group ts) = (ts.map w).sum) :
    (((snapshots.filter (inWindow lo hi)).filter fun v => v.tokenId = tokenId).map f).sum =
      ((windowTrades trades tokenId lo hi).map w).sum := by
  rw [sum_window hrows hkeys hn hhi hf]
  exact Table.sum_groups (List.nodup_dedup _)
    (fun t ht => List.mem_dedup.mpr (List.mem_map_of_mem ht)) w

theorem sum_traders :
    (((snapshots.filter (inWindow lo hi)).filter fun v => v.tokenId = tokenId).map
      (·.uniqueTraders)).sum = traderHours (windowTrades trades tokenId lo hi) :=
  sum_window hrows hkeys hn hhi (f := (·.uniqueTraders))
    (g := fun ts => (ts.map TradeRow.traderAddress).dedup.length) fun _ _ => rfl

end Measured

theorem head?_insertionSort {α : Type} {column : α → Int} {l : List α} {a : α}
    (h : (l.insertionSort (Descending column)).head? = some a) :
    a ∈ l ∧ ∀ b ∈ l, column b ≤ column a := by
  obtain ⟨rest, hsort⟩ := List.head?_eq_some_iff.mp h
  have hpair := List.pairwise_insertionSort (Descending column) l
  rw [hsort] at hpair
  refine ⟨(List.mem_insertionSort (Descending column)).mp (hsort ▸ List.mem_cons_self), ?_⟩
  intro b hb
  have hmem : b ∈ a :: rest := hsort ▸ (List.mem_insertionSort (Descending column)).mpr hb
  rcases List.mem_cons.mp hmem with rfl | hmem
  · exact le_rfl
  · exact List.rel_of_pairwise_cons hpair hmem

theorem volumeOf_filter (p : TradeRow → Bool) (ts : List TradeRow) :
    volumeOf (ts.filter p) = (ts.map fun t => if p t then t.quoteAmount else 0).sum := by
  induction ts with
  | nil => rfl
  | cons t ts ih =>
    rw [List.map_cons, List.sum_cons, ← ih, List.filter_cons]
    split
    · rfl
    · rw [zero_add]

section Rows

variable {trades : List TradeRow} {snapshots : List VolumeSnapshot} {n : Int} {b : Bounds}

theorem priorClose_closedAt (hrows : RowsTo (snapshotRow trades) trades snapshots n)
    (hn : Aligned n) (hmid : b.mid ≤ n) (tokenId : Nat) :
    ClosedAt trades tokenId b.mid (priorClose b snapshots tokenId) := by
  have hmem : ∀ {v}, v ∈ (snapshots.filter fun v => v.windowStart < b.mid ∧ v.tokenId = tokenId) ↔
      ∃ t ∈ chainTrades trades, t.tokenId = tokenId ∧ hourOf t.timestamp < b.mid ∧
        v = snapshotRow trades t := by
    intro v
    simp only [List.mem_filter, decide_eq_true_eq]
    constructor
    · rintro ⟨hv, hlt, rfl⟩
      obtain ⟨t, ht, rfl, -⟩ := hrows.only v hv
      exact ⟨t, ht, rfl, hlt, rfl⟩
    · rintro ⟨t, ht, rfl, hlt, rfl⟩
      have hhour := hn.le_hourOf_iff (t := t.timestamp)
      exact ⟨hrows.covered t ht (by omega), hlt, rfl⟩
  unfold priorClose
  cases hhead : ((snapshots.filter fun v => v.windowStart < b.mid ∧ v.tokenId = tokenId).insertionSort
      (Descending (·.windowStart))).head? with
  | none =>
    intro t ht htoken
    by_contra hlt
    have hsort := List.head?_eq_none_iff.mp hhead
    have hrow := (List.mem_insertionSort (Descending (·.windowStart))).mpr
      (hmem.mpr ⟨t, ht, htoken, not_le.mp hlt, rfl⟩)
    rw [hsort] at hrow
    cases hrow
  | some v =>
    obtain ⟨hv, hmax⟩ := head?_insertionSort hhead
    obtain ⟨t, ht, htoken, hlt, rfl⟩ := hmem.mp hv
    refine ⟨t, ht, htoken, hlt, fun u hu hutoken hult => ?_, rfl⟩
    exact hmax _ (hmem.mpr ⟨u, hu, hutoken, hult, rfl⟩)

theorem rowOf_measured (hrows : RowsTo (snapshotRow trades) trades snapshots n)
    (hkeys : (snapshots.map snapshotKey).Nodup) (hn : Aligned n) (hmid : b.mid ≤ n)
    (hhi : b.hi ≤ n) (token : Token) :
    Measured trades b token (rowOf b snapshots (recentOf token.id
      ((snapshots.filter (inWindow b.mid b.hi)).filter fun v => v.tokenId = token.id)) token) where
  tokenId := rfl
  recentVolume := sum_window_trades hrows hkeys hn hhi fun _ _ => rfl
  priorVolume := sum_window_trades hrows hkeys hn hmid fun _ _ => rfl
  uniqueTraders := sum_traders hrows hkeys hn hhi
  wallets := (traders_le_traderHours _).trans_eq (sum_traders hrows hkeys hn hhi).symm
  tradeCount := by
    refine (sum_window_trades hrows hkeys hn hhi (w := fun _ => 1) fun _ ts => ?_).trans ?_
    · simp [snapshotOf]
    · simp
  buyVolume := by
    rw [volumeOf_filter]
    exact sum_window_trades hrows hkeys hn hhi fun _ ts => volumeOf_filter _ ts
  sellVolume := by
    rw [volumeOf_filter]
    exact sum_window_trades hrows hkeys hn hhi fun _ ts => volumeOf_filter _ ts
  marketCap := rfl
  priorMarketCap := ⟨_, priorClose_closedAt hrows hn hmid token.id, rfl⟩

theorem mem_rowsOf {tokens : List Token} {row : Row} :
    row ∈ rowsOf b snapshots tokens ↔ ∃ token ∈ tokens, token.listed ∧
      (snapshots.filter (inWindow b.mid b.hi)).filter (fun v => v.tokenId = token.id) ≠ [] ∧
        row = rowOf b snapshots (recentOf token.id
          ((snapshots.filter (inWindow b.mid b.hi)).filter fun v => v.tokenId = token.id)) token := by
  simp only [rowsOf, List.mem_flatMap, List.mem_map, recent, Table.mem_groupBy]
  constructor
  · rintro ⟨_, ⟨v, hv, rfl⟩, token, htoken, rfl⟩
    obtain ⟨hmem, hcond⟩ := List.mem_filter.mp htoken
    obtain ⟨hid, hlisted⟩ : token.id = v.tokenId ∧ token.listed := of_decide_eq_true hcond
    refine ⟨token, hmem, hlisted, ?_, ?_⟩
    · rw [hid]
      exact List.ne_nil_of_mem (List.mem_filter.mpr ⟨hv, decide_eq_true rfl⟩)
    · rw [hid]
  · rintro ⟨token, htoken, hlisted, hne, rfl⟩
    obtain ⟨v, hv⟩ := List.exists_mem_of_ne_nil _ hne
    obtain ⟨hv, hid⟩ := List.mem_filter.mp hv
    have hid : v.tokenId = token.id := of_decide_eq_true hid
    refine ⟨_, ⟨v, hv, rfl⟩, token,
      List.mem_filter.mpr ⟨htoken, decide_eq_true ⟨hid.symm, hlisted⟩⟩, ?_⟩
    rw [hid]

theorem rowsOf_nodup {tokens : List Token} (hids : (tokens.map (·.id)).Nodup) :
    ((rowsOf b snapshots tokens).map (·.tokenId)).Nodup := by
  rw [rowsOf, List.map_flatMap, List.nodup_flatMap]
  constructor
  · intro r _
    rw [List.map_map]
    have hfilter : (tokens.filter fun token => token.id = r.tokenId ∧ token.listed).Sublist
        (tokens.filter fun token => token.id = r.tokenId) := by
      refine List.monotone_filter_right _ fun token htoken => ?_
      exact decide_eq_true (of_decide_eq_true htoken).1
    have hids' := hids.sublist ((hfilter.trans List.filter_sublist).map (·.id))
    refine (List.map_congr_left fun token htoken => ?_) ▸ hids'
    exact (of_decide_eq_true (List.mem_filter.mp htoken).2).1
  · unfold recent Table.groupBy
    rw [List.pairwise_map]
    refine List.Pairwise.imp (fun hne => ?_) (List.nodup_dedup _)
    refine List.disjoint_left.mpr fun x hx hx' => ?_
    obtain ⟨_, hrow, rfl⟩ := List.mem_map.mp hx
    obtain ⟨_, -, rfl⟩ := List.mem_map.mp hrow
    obtain ⟨_, hrow', heq⟩ := List.mem_map.mp hx'
    obtain ⟨_, -, rfl⟩ := List.mem_map.mp hrow'
    exact hne heq.symm

theorem anchor_le (hrows : RowsTo (snapshotRow trades) trades snapshots n) (hn : Aligned n)
    {anchor : Int} (h : anchorOf snapshots = some anchor) : anchor ≤ n := by
  obtain ⟨v, hv, rfl⟩ := List.mem_map.mp (List.max?_mem h)
  obtain ⟨t, -, rfl, hlt⟩ := hrows.only v hv
  show hourOf t.timestamp + hour ≤ n
  unfold Aligned hourOf hour at *
  omega

end Rows

/-- Whatever was rolled up and pruned, and while a rollup is still at work: the query ranks the
listed tokens that were traded in the window, and finds for each what every trade ever indexed
adds up to. -/
theorem rows_measured {table : TradeTable} (hfirst : chainTrades table.rows ≠ []) {es : List Event}
    {s : Store} (hrun : Trace Store.Apart (Store.fresh table) es s) {window : Int}
    (hwindow : 0 < window) {anchor : Int} (hanchor : anchorOf s.db.snapshots = some anchor)
    (tokens : List Token) :
    let b := boundsOf anchor window
    let rows := rowsOf b s.db.snapshots tokens
    (∀ row ∈ rows, ∃ token ∈ tokens, token.listed ∧
      windowTrades s.ever token.id b.mid b.hi ≠ [] ∧ Measured s.ever b token row) ∧
      (∀ token ∈ tokens, token.listed → windowTrades s.ever token.id b.mid b.hi ≠ [] →
        ∃ row ∈ rows, Measured s.ever b token row) ∧
      ((tokens.map (·.id)).Nodup → (rows.map (·.tokenId)).Nodup) := by
  intro b rows
  obtain ⟨n, c, h⟩ := Store.kept_run hfirst hrun
  have hhi : b.hi ≤ n := anchor_le h.snapshots h.aligned hanchor
  have hmid : b.mid ≤ n := by
    have hle : b.mid = b.hi - window := rfl
    omega
  have hmeasured := rowOf_measured (b := b) h.snapshots h.keys h.aligned hmid hhi
  refine ⟨?_, ?_, rowsOf_nodup⟩
  · intro row hrow
    obtain ⟨token, htoken, hlisted, hne, rfl⟩ := mem_rowsOf.mp hrow
    refine ⟨token, htoken, hlisted, ?_, hmeasured token⟩
    obtain ⟨v, hv⟩ := List.exists_mem_of_ne_nil _ hne
    obtain ⟨t, ht, -⟩ := (mem_windowSnapshots h.snapshots h.aligned hhi).mp hv
    exact List.ne_nil_of_mem ht
  · intro token htoken hlisted hne
    refine ⟨_, mem_rowsOf.mpr ⟨token, htoken, hlisted, ?_, rfl⟩, hmeasured token⟩
    obtain ⟨t, ht⟩ := List.exists_mem_of_ne_nil _ hne
    exact List.ne_nil_of_mem
      ((mem_windowSnapshots h.snapshots h.aligned hhi).mpr ⟨t, ht, rfl⟩)

def firstToken : Token where
  id := 1
  chainId := 4663
  totalSupply := 1000000000000000000000000000
  marketCap := 7
  moderationStatus := .normal
  trendingScore := 40

def idleToken : Token where
  id := 2
  chainId := 4663
  totalSupply := 1000000000000000000000000000
  marketCap := 7
  moderationStatus := .normal
  trendingScore := 40

def prunedHour : Store where
  ever := twoHours.rows
  rows := deleteMany twoHours.rows
    (findBatch ((pruneAll 0).doomed ((pruneAll 0).cutoff 0)) twoHours.rows)
  db := (Statement.snapshots (0, 3600000)).exec twoHours.rows
    ((Statement.candles (0, 3600000)).exec twoHours.rows .empty)
  pending := []
  pruning := some (pruneAll 0, (pruneAll 0).cutoff 0)

/-- The trade of the first hour is gone, and its token still ranked by it. -/
theorem prunedHour_measured : prunedHour.rows.length < prunedHour.ever.length ∧
    let b := boundsOf hour (24 * hour)
    let rows := rowsOf b prunedHour.db.snapshots [firstToken, idleToken]
    (∃ row ∈ rows, Measured prunedHour.ever b firstToken row) ∧
      (∀ row ∈ rows, row.tokenId = firstToken.id) ∧ (rows.map (·.tokenId)).Nodup := by
  have hbuilt : builtThrough prunedHour.db = some 0 := by decide
  have hrun : Trace Store.Apart (Store.fresh twoHours)
      [.startRollup, .statement, .statement, .startPrune (pruneAll 0), .deleteChunk]
      prunedHour := by
    refine .cons ⟨.startRollup rfl, False.elim⟩ (.cons ⟨.statement twoHours_statements, False.elim⟩
      (.cons ⟨.statement rfl, False.elim⟩ (.cons ⟨.startPrune rfl rfl hbuilt, ?_⟩
        (.cons ⟨.deleteChunk rfl, False.elim⟩ .nil))))
    rintro - ⟨_, _, hp, -⟩
    cases hp
  have hanchor : anchorOf prunedHour.db.snapshots = some hour := by decide
  obtain ⟨hrows, htokens, honce⟩ := rows_measured (by decide) hrun
    (show 0 < 24 * hour by decide) hanchor [firstToken, idleToken]
  refine ⟨by decide, htokens firstToken List.mem_cons_self (by decide) (by decide),
    fun row hrow => ?_, honce (by decide)⟩
  obtain ⟨token, htoken, -, htraded, hmeasured⟩ := hrows row hrow
  rw [hmeasured.tokenId]
  rcases List.mem_cons.mp htoken with rfl | htoken
  · rfl
  · obtain rfl := List.mem_singleton.mp htoken
    exact absurd (by decide) htraded

theorem idText_inj {a b : Nat} (h : idText a = idText b) : a = b := by
  have hdigits : Nat.toDigits 10 a = Nat.toDigits 10 b := String.ofList_injective h
  have hvalue := congrArg (fun ds => Nat.ofDigitChars 10 ds 0) hdigits
  simpa only [Nat.ofDigitChars_ten_toDigits] using hvalue

section SetScore

variable {token : Token} {chunk first second : List TrendingScore}

@[simp] theorem setScore_unscored : (token.setScore chunk).unscored = token.unscored := by
  unfold Token.setScore
  split <;> rfl

@[simp] theorem clear_unscored : token.clear.unscored = token.unscored := by
  unfold Token.clear
  split <;> rfl

theorem id_of_unscored {a b : Token} (h : a.unscored = b.unscored) : a.id = b.id := by
  injection h

theorem chainId_of_unscored {a b : Token} (h : a.unscored = b.unscored) :
    a.chainId = b.chainId := by
  injection h

@[simp] theorem setScore_id : (token.setScore chunk).id = token.id :=
  id_of_unscored setScore_unscored

@[simp] theorem clear_id : token.clear.id = token.id := id_of_unscored clear_unscored

@[simp] theorem setScore_chainId : (token.setScore chunk).chainId = token.chainId :=
  chainId_of_unscored setScore_unscored

@[simp] theorem clear_chainId : token.clear.chainId = token.chainId :=
  chainId_of_unscored clear_unscored

theorem clear_score (h : token.chainId = robinhoodChainId) : token.clear.trendingScore ≤ 0 := by
  unfold Token.clear
  split
  · exact le_rfl
  · rename_i hpos
    exact not_lt.mp fun hlt => hpos ⟨h, hlt⟩

theorem setScore_of_mem (hn : (chunk.map (·.tokenId)).Nodup) {entry : TrendingScore}
    (hentry : entry ∈ chunk) (hid : entry.tokenId = idText token.id) :
    (token.setScore chunk).trendingScore = entry.scoreBps := by
  cases hfind : chunk.find? fun entry => entry.tokenId = idText token.id with
  | none => exact absurd (decide_eq_true hid) (List.find?_eq_none.mp hfind entry hentry)
  | some other =>
    have hother : other.tokenId = idText token.id := by simpa using List.find?_some hfind
    have heq := List.inj_on_of_nodup_map hn (List.mem_of_find?_eq_some hfind) hentry
      (hother.trans hid.symm)
    simp [Token.setScore, hfind, heq]

theorem exists_of_setScore_pos (hchain : token.chainId = robinhoodChainId)
    (hpos : 0 < (token.clear.setScore chunk).trendingScore) :
    ∃ entry ∈ chunk, entry.tokenId = idText token.id := by
  cases hfind : chunk.find? fun entry => entry.tokenId = idText token.id with
  | none =>
    have hkeep : token.clear.setScore chunk = token.clear := by simp [Token.setScore, hfind]
    rw [hkeep] at hpos
    exact absurd hpos (not_lt.mpr (clear_score hchain))
  | some entry =>
    exact ⟨entry, List.mem_of_find?_eq_some hfind, by simpa using List.find?_some hfind⟩

theorem setScore_setScore (hn : ((first ++ second).map (·.tokenId)).Nodup) :
    (token.setScore first).setScore second = token.setScore (first ++ second) := by
  cases hfirst : first.find? fun entry => entry.tokenId = idText token.id with
  | none =>
    have hkeep : token.setScore first = token := by simp [Token.setScore, hfirst]
    rw [hkeep, Token.setScore, Token.setScore, List.find?_append, hfirst, Option.none_or]
  | some entry =>
    have hentry := List.find?_some hfirst
    have hnone : (second.find? fun entry => entry.tokenId = idText token.id) = none := by
      refine List.find?_eq_none.mpr fun other hother hid => ?_
      rw [List.map_append] at hn
      refine (List.nodup_append.mp hn).2.2 entry.tokenId ?_ other.tokenId ?_ ?_
      · exact List.mem_map_of_mem (List.mem_of_find?_eq_some hfirst)
      · exact List.mem_map_of_mem hother
      · exact (of_decide_eq_true hentry).trans (of_decide_eq_true hid).symm
    have hset : token.setScore first = { token with trendingScore := entry.scoreBps } := by
      simp [Token.setScore, hfirst]
    have hboth : token.setScore (first ++ second) =
        { token with trendingScore := entry.scoreBps } := by
      simp [Token.setScore, hfirst]
    rw [hboth, hset]
    simp [Token.setScore, hnone]

theorem runWrites_scores {chunks : List (List TrendingScore)} {tokens : List Token}
    (hn : (chunks.flatten.map (·.tokenId)).Nodup) :
    runWrites tokens (chunks.map .scores) = tokens.map (Token.setScore chunks.flatten) := by
  induction chunks generalizing tokens with
  | nil => exact (List.map_id'' (fun _ => rfl) tokens).symm
  | cons chunk chunks ih =>
    have hrest : (chunks.flatten.map (·.tokenId)).Nodup := by
      rw [List.flatten_cons, List.map_append] at hn
      exact hn.of_append_right
    refine (ih hrest).trans ?_
    show (tokens.map (Token.setScore chunk)).map _ = _
    rw [List.map_map]
    exact List.map_congr_left fun token _ => setScore_setScore hn

end SetScore

section Ranking

variable {b : Bounds} {snapshots : List VolumeSnapshot} {tokens : List Token}

theorem validateWeights_default : validateWeights defaultTrendingWeights = [] := by decide

theorem ranked_spec {rows : List Row} : ∃ scored, ranked rows = .ok scored ∧
    scored.Pairwise (Descending (·.scoreBps)) ∧
      (scored.map (·.tokenId)).Perm (rows.map fun row => idText row.tokenId) := by
  have hids : ∀ {scored : List TrendingScore},
      scored.map (·.tokenId) = rows.map (fun row => idText row.tokenId) →
        ((scored.insertionSort (Descending (·.scoreBps))).map (·.tokenId)).Perm
          (rows.map fun row => idText row.tokenId) := by
    intro scored hscored
    exact hscored ▸ (List.perm_insertionSort _ scored).map _
  unfold ranked scoreTrending
  rw [validateWeights_default]
  cases rows with
  | nil => exact ⟨_, rfl, List.pairwise_insertionSort _ _, hids rfl⟩
  | cons row rows =>
    refine ⟨_, rfl, List.pairwise_insertionSort _ _, hids ?_⟩
    rw [List.map_map, List.map_map]
    rfl

/-- Stopped anywhere after its first statement, a run leaves scores of the new ranking alone: those
from the top down to some place.  A complete run leaves all of them. -/
theorem writes_ranking (hids : (tokens.map (·.id)).Nodup) {window : Int} {k : Nat}
    (hk : 0 < k) (hwrites : writes false window snapshots tokens ≠ []) :
    ∃ anchor scored n, anchorOf snapshots = some anchor ∧
      ranked (rowsOf (boundsOf anchor window) snapshots tokens) = .ok scored ∧
      ((writes false window snapshots tokens).length ≤ k → scored.take n = scored) ∧
      (∀ a ∈ scored.take n, ∀ b ∈ scored.drop n, b.scoreBps ≤ a.scoreBps) ∧
      let after := runWrites tokens ((writes false window snapshots tokens).take k)
      after.map Token.unscored = tokens.map Token.unscored ∧
      (∀ token ∈ after, ∀ entry ∈ scored.take n, entry.tokenId = idText token.id →
        token.trendingScore = entry.scoreBps) ∧
      ∀ token ∈ after, token.chainId = robinhoodChainId → 0 < token.trendingScore →
        ∃ entry ∈ scored.take n, entry.tokenId = idText token.id := by
  cases hanchor : anchorOf snapshots with
  | none =>
    simp only [writes, hanchor] at hwrites
    exact absurd rfl hwrites
  | some anchor =>
    obtain ⟨scored, hscored, hsorted, hperm⟩ :=
      @ranked_spec (rowsOf (boundsOf anchor window) snapshots tokens)
    have hws : writes false window snapshots tokens =
        .clear :: (Chunks.ofSize writeChunk scored).map .scores := by
      simp only [writes, hanchor] at hwrites ⊢
      split
      · rename_i hempty
        exact absurd (if_pos hempty) hwrites
      · rw [hscored]
        rfl
    have hn : (scored.map (·.tokenId)).Nodup := by
      refine hperm.nodup_iff.mpr ?_
      have hrows : ((rowsOf (boundsOf anchor window) snapshots tokens).map (·.tokenId)).Nodup :=
        rowsOf_nodup hids
      have hmap := hrows.map (f := idText) fun _ _ => idText_inj
      rwa [List.map_map] at hmap
    obtain ⟨k, rfl⟩ := Nat.exists_eq_add_of_le' hk
    obtain ⟨n, hflat, hall⟩ := Chunks.flatten_take_ofSize (l := scored)
      (show 0 < writeChunk by decide) k
    have hafter : runWrites tokens ((writes false window snapshots tokens).take (k + 1)) =
        tokens.map fun token => token.clear.setScore (scored.take n) := by
      have hrun := @runWrites_scores ((Chunks.ofSize writeChunk scored).take k)
        (tokens.map Token.clear) (hflat ▸ hn.sublist ((List.take_sublist n scored).map _))
      rw [hws, List.take_succ_cons, ← List.map_take]
      rw [hflat, List.map_map] at hrun
      exact hrun
    refine ⟨anchor, scored, n, rfl, hscored, fun hlen => hall ?_, ?_, ?_⟩
    · rw [hws, List.length_cons, List.length_map] at hlen
      exact Nat.le_of_succ_le_succ hlen
    · rw [← List.take_append_drop n scored] at hsorted
      exact fun a ha b hb => (List.pairwise_append.mp hsorted).2.2 a ha b hb
    · dsimp only
      rw [hafter]
      refine ⟨?_, ?_, ?_⟩
      · rw [List.map_map]
        refine List.map_congr_left fun token _ => ?_
        rw [Function.comp_apply, setScore_unscored, clear_unscored]
      · intro token htoken entry hentry hid
        obtain ⟨token, -, rfl⟩ := List.mem_map.mp htoken
        rw [setScore_id] at hid
        exact setScore_of_mem (hn.sublist ((List.take_sublist n scored).map _)) hentry hid
      · intro token htoken hchain hpos
        obtain ⟨token, -, rfl⟩ := List.mem_map.mp htoken
        rw [setScore_chainId, clear_chainId] at hchain
        rw [setScore_id, clear_id]
        exact exists_of_setScore_pos hchain hpos

end Ranking

def tradedHour : List VolumeSnapshot :=
  [{ tokenId := 1, windowStart := 0, windowEnd := hour, venue := .curve, volume := 30
     buyVolume := 20, sellVolume := 10, tradeCount := 3, uniqueTraders := 2, openPrice := 7
     closePrice := 7 },
   { tokenId := 3, windowStart := 0, windowEnd := hour, venue := .curve, volume := 10
     buyVolume := 10, sellVolume := 0, tradeCount := 1, uniqueTraders := 1, openPrice := 7
     closePrice := 7 }]

def thirdToken : Token := { idleToken with id := 3, trendingScore := 0 }

/-- A complete run: the two traded tokens have their scores, and the idle one has lost its old
score. -/
theorem tradedHour_ranking :
    let tokens := [firstToken, idleToken, thirdToken]
    ∃ scored, ranked (rowsOf (boundsOf hour (24 * hour)) tradedHour tokens) = .ok scored ∧
      let after := runWrites tokens ((writes false (24 * hour) tradedHour tokens).take 2)
      after.map Token.id = [1, 2, 3] ∧ after.map Token.trendingScore = [9499, 0, 7416] ∧
      (∀ token ∈ after, ∀ entry ∈ scored, entry.tokenId = idText token.id →
        token.trendingScore = entry.scoreBps) ∧
      ∀ token ∈ after, token.chainId = robinhoodChainId → 0 < token.trendingScore →
        ∃ entry ∈ scored, entry.tokenId = idText token.id := by
  intro tokens
  have hlen : (writes false (24 * hour) tradedHour tokens).length = 2 := by decide
  have hwrites : writes false (24 * hour) tradedHour tokens ≠ [] :=
    fun hnil => absurd (hnil ▸ hlen) (by decide)
  obtain ⟨anchor, scored, n, hanchor, hscored, hall, -, hkept, hset, honly⟩ :=
    writes_ranking (show (tokens.map Token.id).Nodup by decide) Nat.two_pos hwrites
  have hboth : anchorOf tradedHour = some hour := by decide
  obtain rfl := Option.some.inj (hanchor.symm.trans hboth)
  rw [hall hlen.le] at hset honly
  exact ⟨scored, hscored, by decide, by decide, hset, honly⟩

end Stunks.Scripts.ScoreTrending
