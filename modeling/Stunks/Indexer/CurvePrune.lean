import Stunks.Indexer.CurveReplay
import Stunks.Scripts.Prune

namespace Stunks.Indexer

open Database Pons

variable {H : Type}

def CurveTrade.row (id tokenId : Nat) (trade : CurveTrade H) : Scripts.TradeRow where
  id
  chainId := Scripts.robinhoodChainId
  tokenId
  venue := match trade.venue with
    | .curve => .curve
    | .uniswapV4 => .uniswapV4
  traderAddress := trade.traderAddress
  side := match trade.side with
    | .buy => .buy
    | .sell => .sell
  quoteAmount := trade.quoteAmount.toNat
  price := trade.price.toNat
  blockNumber := trade.blockNumber
  logIndex := trade.logIndex
  timestamp := trade.timestamp

namespace CurveTables

variable (s : CurveTables H)

def numbered : List (CurveTrade H × Scripts.TradeRow) :=
  s.trades.zipIdx.map fun (trade, id) =>
    (trade, trade.row id (s.tokens.findIdx fun token => token.address = trade.token))

def pruned (p : Scripts.PruneRun) (db : Scripts.Aggregates) : CurveTables H :=
  { s with trades := (s.numbered.filter fun (_, row) =>
      row ∈ Scripts.prune p db (s.numbered.map Prod.snd)).map Prod.fst }

end CurveTables

structure TokenStats.Keeps (before after : TokenStats) : Prop where
  volumeTotal : before.volumeTotal ≤ after.volumeTotal
  tradeCount : before.tradeCount ≤ after.tradeCount
  buyCount : before.buyCount ≤ after.buyCount
  sellCount : before.sellCount ≤ after.sellCount

def CurveTrade.leg (trade : CurveTrade H) : (Hex × Nat) × Address × Int × Bool :=
  (trade.key, trade.token, trade.quoteAmount, trade.isBuy)

/-- One log is one trade, be it stored or read again. -/
def OneLeg (decodePonsLog : RawLog H → Option PonsEvent) (deps : CurveProcessorDeps)
    (s : CurveTables H) (logs : List (RawLog H)) : Prop :=
  ∀ a b, (∃ timeOf, Known decodePonsLog deps timeOf s logs a) →
    (∃ timeOf, Known decodePonsLog deps timeOf s logs b) → a.key = b.key → a.leg = b.leg

section prune

variable {decodePonsLog : RawLog H → Option PonsEvent} {deps : CurveProcessorDeps}
  {s t : CurveTables H} {logs : List (RawLog H)} {trades trades' : List (CurveTrade H)}
  {id : Address} {p : Scripts.PruneRun} {db : Scripts.Aggregates}

theorem numbered_fst (s : CurveTables H) : s.numbered.map Prod.fst = s.trades := by
  rw [CurveTables.numbered, List.map_map]
  exact List.zipIdx_map_fst ..

theorem pruned_sublist : (s.pruned p db).trades.Sublist s.trades := by
  have hsub := (List.filter_sublist (l := s.numbered) (p := fun entry =>
    entry.2 ∈ Scripts.prune p db (s.numbered.map Prod.snd))).map Prod.fst
  rwa [numbered_fst] at hsub

theorem of_eq_of_legs (h : (trades.map CurveTrade.leg).Perm (trades'.map CurveTrade.leg)) :
    TokenTradeAggregate.of trades = TokenTradeAggregate.of trades' := by
  have hvolume := (h.map fun leg => leg.2.2.1).sum_eq
  have hlength := h.length_eq
  have hbuys := h.countP_eq fun leg => leg.2.2.2
  have hsells := h.countP_eq fun leg => !leg.2.2.2
  rw [List.map_map, List.map_map] at hvolume
  rw [List.length_map, List.length_map] at hlength
  rw [List.countP_map, List.countP_map] at hbuys hsells
  exact TokenTradeAggregate.mk.injEq .. ▸ ⟨hvolume, hlength, hbuys, hsells⟩

theorem legs_nodup (h : (trades.map CurveTrade.key).Nodup) :
    ((tradesOf id trades).map CurveTrade.leg).Nodup := by
  have hkeys : ((tradesOf id trades).map CurveTrade.key).Nodup :=
    h.sublist (List.filter_sublist.map _)
  refine .of_map Prod.fst ?_
  rwa [List.map_map]

def legOf (decodePonsLog : RawLog H → Option PonsEvent) (deps : CurveProcessorDeps)
    (s : CurveTables H) (raw : RawLog H) : Option ((Hex × Nat) × Address × Int × Bool) :=
  (rowOf decodePonsLog deps s.listed 0 raw).map CurveTrade.leg

theorem legOf_of_rowOf {raw : RawLog H} {row : CurveTrade H} {timestamp : Nat}
    (h : rowOf decodePonsLog deps s.listed timestamp raw = some row) :
    legOf decodePonsLog deps s raw = some row.leg := by
  rw [legOf, rowOf_at h]
  rfl

theorem Windowed.mem_legs {leg : (Hex × Nat) × Address × Int × Bool}
    (h : Windowed decodePonsLog deps (fun _ _ => True) logs s t)
    (hone : OneLeg decodePonsLog deps s logs) :
    leg ∈ (tradesOf id t.trades).map CurveTrade.leg ↔
      leg ∈ (tradesOf id s.trades).map CurveTrade.leg ∨
        ∃ raw ∈ logs, legOf decodePonsLog deps s raw = some leg ∧ leg.2.1 = id := by
  obtain ⟨rows, g, hrows, htrades, -, -⟩ := h
  have hof : ∀ trades : List (CurveTrade H), leg ∈ (tradesOf id trades).map CurveTrade.leg ↔
      leg ∈ trades.map CurveTrade.leg ∧ leg.2.1 = id := by
    intro trades
    simp only [tradesOf, List.mem_map, List.mem_filter, decide_eq_true_eq]
    constructor
    · rintro ⟨trade, ⟨hmem, hid⟩, rfl⟩
      exact ⟨⟨trade, hmem, rfl⟩, hid⟩
    · rintro ⟨⟨trade, hmem, rfl⟩, hid⟩
      exact ⟨trade, ⟨hmem, hid⟩, rfl⟩
  have hread : leg ∈ rows.map CurveTrade.leg ↔
      ∃ raw ∈ logs, legOf decodePonsLog deps s raw = some leg := by
    constructor
    · intro hleg
      obtain ⟨row, hrow, rfl⟩ := List.mem_map.mp hleg
      obtain ⟨raw, hraw, _, -, hrowOf⟩ := hrows.mem hrow
      exact ⟨raw, hraw, legOf_of_rowOf hrowOf⟩
    · rintro ⟨raw, hraw, hleg⟩
      obtain ⟨row, hrowOf, rfl⟩ := Option.map_eq_some_iff.mp hleg
      obtain ⟨row', hrow', _, -, hrowOf'⟩ := hrows.exists hraw (tradedToken_of_rowOf hrowOf)
      have heq := (legOf_of_rowOf hrowOf').symm.trans (legOf_of_rowOf hrowOf)
      exact List.mem_map.mpr ⟨row', hrow', Option.some.inj heq⟩
  have hknown : ∀ x ∈ s.trades ++ rows, ∃ timeOf, Known decodePonsLog deps timeOf s logs x := by
    intro x hx
    rcases List.mem_append.mp hx with hstored | hnew
    · exact ⟨fun _ => 0, .inl hstored⟩
    · obtain ⟨raw, hraw, timestamp, -, hrowOf⟩ := hrows.mem hnew
      exact ⟨fun _ => timestamp, .inr ⟨raw, hraw, hrowOf⟩⟩
  have hunion := @Table.mem_map_insertMany _ _ _ _ CurveTrade.key s.trades rows CurveTrade.leg leg
    fun x hx y hy => hone x y (hknown x hx) (hknown y hy)
  rw [hof, hof, htrades, hunion, hread, or_and_right]
  refine or_congr_right ⟨?_, ?_⟩
  · rintro ⟨⟨raw, hraw, hleg⟩, hid⟩
    exact ⟨raw, hraw, hleg, hid⟩
  · rintro ⟨raw, hraw, hleg, hid⟩
    exact ⟨⟨raw, hraw, hleg⟩, hid⟩

theorem OneLeg.pruned {logs' : List (RawLog H)} (h : OneLeg decodePonsLog deps s logs)
    (hsub : ∀ raw ∈ logs', raw ∈ logs) : OneLeg decodePonsLog deps (s.pruned p db) logs' := by
  have hweaken : ∀ x, (∃ timeOf, Known decodePonsLog deps timeOf (s.pruned p db) logs' x) →
      ∃ timeOf, Known decodePonsLog deps timeOf s logs x := by
    rintro x ⟨timeOf, hmem | ⟨raw, hraw, hrow⟩⟩
    · exact ⟨timeOf, .inl (pruned_sublist.subset hmem)⟩
    · exact ⟨timeOf, .inr ⟨raw, hsub raw hraw, hrow⟩⟩
  exact fun a b ha hb => h a b (hweaken a ha) (hweaken b hb)

theorem Counted.keeps {a b : TokenStats} (ha : Counted trades a) (hb : Counted trades' b)
    (h : TokenTradeAggregate.of trades = TokenTradeAggregate.of trades') : a.Keeps b := by
  refine ⟨le_of_eq ?_, le_of_eq ?_, le_of_eq ?_, le_of_eq ?_⟩
  · rw [ha.volumeTotal, hb.volumeTotal, h]
  · rw [ha.tradeCount, hb.tradeCount, h]
  · rw [ha.buyCount, hb.buyCount, h]
  · rw [ha.sellCount, hb.sellCount, h]

theorem Windowed.stats_kept {token : TradedToken}
    (h : Windowed decodePonsLog deps (fun _ _ => True) logs s t) (htoken : token ∈ t.tokens)
    (huntouched : ¬∃ raw ∈ logs, tradedToken decodePonsLog s.listed raw = some token.address) :
    ∃ before ∈ s.tokens, before.address = token.address ∧ token.stats = before.stats := by
  obtain ⟨rows, g, hrows, -, htokens, hg⟩ := h
  rw [htokens] at htoken
  obtain ⟨before, hbefore, rfl⟩ := List.mem_map.mp htoken
  have heq : (g before).address = before.address := congrArg Prod.fst (hg before hbefore).listing
  rw [heq] at huntouched
  exact ⟨before, hbefore, heq.symm,
    (hg before hbefore).untouched (mt hrows.mem_tokens.mp huntouched)⟩

theorem leg_kept_iff {trade : CurveTrade H} (hkeys : (s.trades.map CurveTrade.key).Nodup)
    (hone : OneLeg decodePonsLog deps s logs) (htrade : trade ∈ s.trades) :
    (trade.leg ∈ (tradesOf trade.token (s.pruned p db).trades).map CurveTrade.leg ∨
        ∃ raw ∈ logs, legOf decodePonsLog deps s raw = some trade.leg ∧
          trade.leg.2.1 = trade.token) ↔
      (trade ∉ (s.pruned p db).trades → ∃ raw ∈ logs,
        (raw.transactionHash, raw.logIndex) = trade.key ∧
          tradedToken decodePonsLog s.listed raw = some trade.token) := by
  constructor
  · rintro (hleft | ⟨raw, hraw, hleg, -⟩) hgone
    · obtain ⟨other, hother, heq⟩ := List.mem_map.mp hleft
      have hmem := (List.mem_filter.mp hother).1
      obtain rfl : other = trade := List.inj_on_of_nodup_map hkeys (pruned_sublist.subset hmem)
        htrade (congrArg Prod.fst heq)
      exact absurd hmem hgone
    · obtain ⟨row, hrow, heq⟩ := Option.map_eq_some_iff.mp hleg
      have hkey : row.key = trade.key := congrArg Prod.fst heq
      have htoken : row.token = trade.token := congrArg (fun leg => leg.2.1) heq
      refine ⟨raw, hraw, ?_, ?_⟩
      · rw [← hkey, key_of_rowOf hrow]
      · rw [← htoken, tradedToken_of_rowOf hrow]
  · intro hread
    by_cases hmem : trade ∈ (s.pruned p db).trades
    · exact .inl (List.mem_map_of_mem (List.mem_filter.mpr ⟨hmem, by simp⟩))
    · obtain ⟨raw, hraw, hkey, htoken⟩ := hread hmem
      obtain ⟨row, hrow⟩ : ∃ row, rowOf decodePonsLog deps s.listed 0 raw = some row :=
        rowOf_exists htoken
      have hrowKey : row.key = trade.key := (key_of_rowOf hrow).trans hkey
      have hleg := hone row trade ⟨fun _ => 0, .inr ⟨raw, hraw, hrow⟩⟩
        ⟨fun _ => 0, .inl htrade⟩ hrowKey
      exact .inr ⟨raw, hraw, hleg ▸ legOf_of_rowOf hrow, rfl⟩

section compare

variable {logs' : List (RawLog H)} {a b : CurveTables H}
  (hone : OneLeg decodePonsLog deps s logs) (hsame : ∀ raw, raw ∈ logs ↔ raw ∈ logs')
  (ha : Windowed decodePonsLog deps (fun _ _ => True) logs s a)
  (hb : Windowed decodePonsLog deps (fun _ _ => True) logs' (s.pruned p db) b)

include hone hsame hb

theorem mem_legs_pruned {leg : (Hex × Nat) × Address × Int × Bool} :
    leg ∈ (tradesOf id b.trades).map CurveTrade.leg ↔
      leg ∈ (tradesOf id (s.pruned p db).trades).map CurveTrade.leg ∨
        ∃ raw ∈ logs, legOf decodePonsLog deps s raw = some leg ∧ leg.2.1 = id := by
  rw [hb.mem_legs (hone.pruned fun raw hraw => (hsame raw).mpr hraw)]
  exact or_congr_right (exists_congr fun raw => and_congr_left fun _ => (hsame raw).symm)

include ha

theorem legs_subset : (tradesOf id b.trades).map CurveTrade.leg ⊆
    (tradesOf id a.trades).map CurveTrade.leg := by
  intro leg hleg
  rw [mem_legs_pruned hone hsame hb] at hleg
  rw [ha.mem_legs hone]
  exact hleg.imp_left fun hmem => ((pruned_sublist.filter _).map _).subset hmem

theorem legs_back_iff (hkeys : (s.trades.map CurveTrade.key).Nodup) :
    (tradesOf id a.trades).map CurveTrade.leg ⊆ (tradesOf id b.trades).map CurveTrade.leg ↔
      ∀ trade ∈ s.trades, trade.token = id → trade ∉ (s.pruned p db).trades →
        ∃ raw ∈ logs, (raw.transactionHash, raw.logIndex) = trade.key ∧
          tradedToken decodePonsLog s.listed raw = some trade.token := by
  constructor
  · rintro hback trade htrade rfl
    refine (leg_kept_iff hkeys hone htrade).mp ?_
    rw [← mem_legs_pruned hone hsame hb]
    refine hback ((ha.mem_legs hone).mpr (.inl ?_))
    exact List.mem_map_of_mem (List.mem_filter.mpr ⟨htrade, by simp⟩)
  · intro hkept leg hleg
    rw [ha.mem_legs hone] at hleg
    rw [mem_legs_pruned hone hsame hb]
    rcases hleg with hstored | hnew
    · obtain ⟨trade, htrade, rfl⟩ := List.mem_map.mp hstored
      obtain ⟨hmem, hid⟩ := List.mem_filter.mp htrade
      obtain rfl := of_decide_eq_true hid
      exact (leg_kept_iff hkeys hone hmem).mpr (hkept trade hmem rfl)
    · exact .inr hnew

end compare

/-- Whatever windows follow a prune, no counter ends lower than without the prune exactly when every
trade that was pruned of a token which the windows trade is among the trades they deliver. -/
theorem pruned_keeps_iff {ws vs : List (CurveWindow H)} {a b : CurveTables H}
    (haddresses : (s.tokens.map TradedToken.address).Nodup)
    (hkeys : (s.trades.map CurveTrade.key).Nodup) (href : s.References)
    (hone : OneLeg decodePonsLog deps s (delivered ws))
    (hsame : ∀ raw, raw ∈ delivered ws ↔ raw ∈ delivered vs)
    (ha : CurveRun decodePonsLog deps s (ws.map .window) a)
    (hb : CurveRun decodePonsLog deps (s.pruned p db) (vs.map .window) b) :
    (∀ x ∈ a.tokens, ∀ y ∈ b.tokens, y.address = x.address → x.stats.Keeps y.stats) ↔
      ∀ trade ∈ s.trades, trade ∉ (s.pruned p db).trades →
        (∃ raw ∈ delivered ws, tradedToken decodePonsLog s.listed raw = some trade.token) →
          ∃ raw ∈ delivered ws, (raw.transactionHash, raw.logIndex) = trade.key ∧
            tradedToken decodePonsLog s.listed raw = some trade.token := by
  have hwa : Windowed decodePonsLog deps (fun _ _ => True) _ s a :=
    ha.windowed fun _ _ _ _ _ => trivial
  have hwb : Windowed decodePonsLog deps (fun _ _ => True) _ (s.pruned p db) b :=
    hb.windowed fun _ _ _ _ _ => trivial
  have htouches : ∀ id, (∃ raw ∈ delivered vs,
      tradedToken decodePonsLog (s.pruned p db).listed raw = some id) ↔
        ∃ raw ∈ delivered ws, tradedToken decodePonsLog s.listed raw = some id :=
    fun id => exists_congr fun raw => and_congr_left fun _ => (hsame raw).symm
  have hnodup : ∀ id, ((tradesOf id b.trades).map CurveTrade.leg).Nodup := fun id =>
    legs_nodup (hwb.nodup_keys (hkeys.sublist (pruned_sublist.map _)))
  constructor
  · intro hkeeps trade htrade hgone htouched
    obtain ⟨x, hx, hxid⟩ := List.mem_map.mp (hwa.addresses ▸ href trade htrade)
    obtain ⟨y, hy, hyid⟩ := List.mem_map.mp (hwb.addresses ▸ href trade htrade)
    have hcount := (hkeeps x hx y hy (hyid.trans hxid.symm)).tradeCount
    rw [(hwa.fresh htouched x hx hxid).tradeCount,
      (hwb.fresh ((htouches _).mpr htouched) y hy hyid).tradeCount] at hcount
    have hperm := (List.subperm_of_subset (hnodup _)
      (legs_subset hone hsame hwa hwb)).perm_of_length_le
        (by simpa [TokenTradeAggregate.of] using hcount)
    exact (legs_back_iff hone hsame hwa hwb hkeys).mp hperm.symm.subset trade htrade rfl hgone
  · intro hkept x hx y hy hid
    by_cases htouched : ∃ raw ∈ delivered ws,
        tradedToken decodePonsLog s.listed raw = some x.address
    · have hback := (legs_back_iff hone hsame hwa hwb hkeys).mpr fun trade htrade htoken hgone =>
        hkept trade htrade hgone (htoken ▸ htouched)
      have hperm := (List.perm_ext_iff_of_nodup (legs_nodup (hwa.nodup_keys hkeys))
        (hnodup x.address)).mpr fun leg =>
          ⟨fun h => hback h, fun h => legs_subset hone hsame hwa hwb h⟩
      exact (hwa.fresh htouched x hx rfl).keeps
        (hwb.fresh ((htouches _).mpr htouched) y hy hid) (of_eq_of_legs hperm)
    · obtain ⟨u, hu, huid, hxu⟩ := hwa.stats_kept hx htouched
      obtain ⟨v, hv, hvid, hyv⟩ := hwb.stats_kept hy (hid ▸ mt (htouches _).mp htouched)
      have huv : u = v := List.inj_on_of_nodup_map haddresses hu hv
        (huid.trans (hid.symm.trans hvid.symm))
      rw [hxu, hyv, huv]
      exact ⟨le_rfl, le_rfl, le_rfl, le_rfl⟩

end prune

section sample

def soldRow (raw : RawLog Nat) : CurveTrade Nat :=
  tradeRow sampleDeps raw 1
    { side := .buy, quoteAmount := 10, tokenAmount := 5, trader := 8, recipient := 8, fee := 0
      tax := 0 } (2 * priceScale) 2000 raw.blockNumber

def soldTables : CurveTables Nat where
  tokens := [{ address := 1, curveAddress := 2, totalSupply := 1000, phase := .notGraduated
               stats := { sampleStats with price := 2 * priceScale, marketCap := 2000,
                                           volumeTotal := 20, tradeCount := 2, buyCount := 2,
                                           lastTradeAt := some 6 } }]
  trades := [soldRow (sampleLog 5), soldRow laterLog]

def firstHour : Scripts.Aggregates where
  candles := [{ tokenId := 0, interval := Scripts.intervalSeconds, openTime := 0, openPrice := 2,
                high := 2, low := 2, closePrice := 2, volume := 20, tradeCount := 2 }]
  snapshots := []

theorem soldTables_right : soldTables.Right := by
  intro token htoken
  cases List.mem_singleton.mp htoken
  have hlatest : latestTrade (tradesOf 1 soldTables.trades) = some (soldRow laterLog) := by decide
  refine ⟨by decide, by decide, by decide, by decide, fun latest h => ?_⟩
  cases hlatest.symm.trans h
  rfl

theorem soldTables_pruned : soldTables.pruned (Scripts.pruneAll 0) firstHour =
    { soldTables with trades := [] } := by
  have hbuilt : Scripts.builtThrough firstHour = some 0 := by decide
  have hgone : ∀ entry ∈ soldTables.numbered, entry.2 ∉
      Scripts.prune (Scripts.pruneAll 0) firstHour (soldTables.numbered.map Prod.snd) := by
    have hold : ∀ row ∈ soldTables.numbered.map Prod.snd,
        row.chainId = Scripts.robinhoodChainId ∧ row.timestamp < 0 + Scripts.hour := by decide
    intro entry hentry
    have hrow := List.mem_map_of_mem (f := Prod.snd) hentry
    obtain ⟨hchain, hlt⟩ := hold _ hrow
    exact Scripts.prune_all hbuilt (List.mem_filter.mpr ⟨hrow, decide_eq_true hchain⟩) hlt
  have hnone : soldTables.numbered.filter (fun entry => entry.2 ∈
      Scripts.prune (Scripts.pruneAll 0) firstHour (soldTables.numbered.map Prod.snd)) = [] :=
    List.filter_eq_nil_iff.mpr fun entry hentry h => hgone entry hentry (of_decide_eq_true h)
  have htrades := congrArg (List.map Prod.fst) hnone
  exact congrArg (fun trades => { soldTables with trades }) htrades

def nextLog : RawLog Nat := { sampleLog 7 with transactionHash := 9 }

def countsOne (t : CurveTables Nat) : Bool := t.tokens.all fun token => token.stats.tradeCount = 1

/-- The first trade after the prune takes the count from two to one. -/
theorem next_trade_drops : soldTables.Right ∧ ∃ p db t,
    CurveRun sampleBuy sampleDeps (soldTables.pruned p db) [.window (sampleWindow [nextLog])] t ∧
      ∀ x ∈ soldTables.tokens, ∀ y ∈ t.tokens, y.stats.tradeCount < x.stats.tradeCount := by
  refine ⟨soldTables_right, Scripts.pruneAll 0, firstHour, ?_⟩
  rw [soldTables_pruned]
  obtain ⟨t, hrun, hone⟩ : ∃ t, CurveRun sampleBuy sampleDeps { soldTables with trades := [] }
      [.window (sampleWindow [nextLog])] t ∧ countsOne t = true := Trace.exists_of_any (by decide)
  refine ⟨t, hrun, fun x hx y hy => ?_⟩
  have hy : y.stats.tradeCount = 1 := of_decide_eq_true (List.all_eq_true.mp hone y hy)
  cases List.mem_singleton.mp hx
  rw [hy]
  decide

theorem soldTables_oneLeg : OneLeg sampleBuy sampleDeps soldTables (delivered bothAtOnce) := by
  have hlegs : ∀ x, (∃ timeOf, Known sampleBuy sampleDeps timeOf soldTables (delivered bothAtOnce) x) →
      x.leg = (soldRow (sampleLog 5)).leg ∨ x.leg = (soldRow laterLog).leg := by
    rintro x ⟨timeOf, hstored | ⟨raw, hraw, hrow⟩⟩
    · have hcases : x = soldRow (sampleLog 5) ∨ x = soldRow laterLog := by
        simpa [soldTables] using hstored
      exact hcases.imp (congrArg _) (congrArg _)
    · have hleg := legOf_of_rowOf hrow
      rw [bothAtOnce_logs] at hraw
      obtain rfl | rfl : raw = sampleLog 5 ∨ raw = laterLog := by simpa using hraw
      · have hfirst : legOf sampleBuy sampleDeps soldTables (sampleLog 5) =
            some (soldRow (sampleLog 5)).leg := by decide
        exact .inl (Option.some.inj (hleg.symm.trans hfirst))
      · have hlater : legOf sampleBuy sampleDeps soldTables laterLog =
            some (soldRow laterLog).leg := by
          decide
        exact .inr (Option.some.inj (hleg.symm.trans hlater))
  have hdistinct : (soldRow (sampleLog 5)).leg.1 ≠ (soldRow laterLog).leg.1 := by decide
  intro a b ha hb hkey
  have hkey : a.leg.1 = b.leg.1 := hkey
  rcases hlegs a ha with ha | ha <;> rcases hlegs b hb with hb | hb <;> rw [ha, hb] at hkey ⊢
  · exact absurd hkey hdistinct
  · exact absurd hkey.symm hdistinct

/-- Both pruned trades are delivered again. -/
theorem pruned_keeps_iff_redelivered : ∃ a b,
    CurveRun sampleBuy sampleDeps soldTables (bothAtOnce.map .window) a ∧
      CurveRun sampleBuy sampleDeps (soldTables.pruned (Scripts.pruneAll 0) firstHour)
        (bothAtOnce.map .window) b ∧
        ∀ x ∈ a.tokens, ∀ y ∈ b.tokens, y.address = x.address → x.stats.Keeps y.stats := by
  obtain ⟨a, ha, -⟩ : ∃ a, CurveRun sampleBuy sampleDeps soldTables (bothAtOnce.map .window) a ∧
      true = true := @Trace.exists_of_any _ _ _ _ _ (fun _ => true) (by decide)
  obtain ⟨b, hb, -⟩ : ∃ b, CurveRun sampleBuy sampleDeps
      (soldTables.pruned (Scripts.pruneAll 0) firstHour) (bothAtOnce.map .window) b ∧
        true = true := by
    rw [soldTables_pruned]
    exact @Trace.exists_of_any _ _ _ _ _ (fun _ => true) (by decide)
  have haddresses : (soldTables.tokens.map TradedToken.address).Nodup := by decide
  have hkeys : (soldTables.trades.map CurveTrade.key).Nodup := by decide
  have href : ∀ trade ∈ soldTables.trades,
      trade.token ∈ soldTables.tokens.map TradedToken.address := by decide
  refine ⟨a, b, ha, hb, (pruned_keeps_iff haddresses hkeys href soldTables_oneLeg (fun _ => .rfl)
    ha hb).mpr ?_⟩
  rw [bothAtOnce_logs]
  intro trade htrade _ _
  obtain rfl | rfl : trade = soldRow (sampleLog 5) ∨ trade = soldRow laterLog := by
    simpa [soldTables] using htrade
  · exact ⟨sampleLog 5, by simp, by decide, by decide⟩
  · exact ⟨laterLog, by simp, by decide, by decide⟩

end sample

end Stunks.Indexer
