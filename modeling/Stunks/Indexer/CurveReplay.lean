import Stunks.Indexer.CurveRuns

namespace Stunks.Indexer

open Database Pons

variable {H : Type}

def delivered (ws : List (CurveWindow H)) : List (RawLog H) := ws.flatMap CurveWindow.logs

def StableTimes (timeOf : Nat → Nat) (ws : List (CurveWindow H)) : Prop :=
  ∀ w ∈ ws, ∀ o ∈ w.answers, ∀ blockNumber, o.ext.blockTime blockNumber = timeOf blockNumber

def Known (decodePonsLog : RawLog H → Option PonsEvent) (deps : CurveProcessorDeps)
    (timeOf : Nat → Nat) (s : CurveTables H) (logs : List (RawLog H))
    (trade : CurveTrade H) : Prop :=
  trade ∈ s.trades ∨
    ∃ raw ∈ logs, rowOf decodePonsLog deps s.listed (timeOf raw.blockNumber) raw = some trade

/-- No two trades of a chain share their log or their place. -/
structure OneChain (known : CurveTrade H → Prop) : Prop where
  key : ∀ a b, known a → known b → a.key = b.key → a = b
  position : ∀ a b, known a → known b → a.position = b.position → a = b

structure TokenStats.Agree (a b : TokenStats) : Prop where
  volumeTotal : a.volumeTotal = b.volumeTotal
  tradeCount : a.tradeCount = b.tradeCount
  buyCount : a.buyCount = b.buyCount
  sellCount : a.sellCount = b.sellCount
  price : a.price = b.price
  lastTradeAt : a.lastTradeAt = b.lastTradeAt

section replay

variable {decodePonsLog : RawLog H → Option PonsEvent} {deps : CurveProcessorDeps}
  {times : Nat → Nat → Prop} {timeOf : Nat → Nat} {s t : CurveTables H} {ws : List (CurveWindow H)}
  {logs logs' : List (RawLog H)} {trades trades' : List (CurveTrade H)} {id : Address}

theorem CurveRun.windowed
    (htimes : ∀ w ∈ ws, ∀ o ∈ w.answers, ∀ blockNumber,
      times blockNumber (o.ext.blockTime blockNumber))
    (hrun : CurveRun decodePonsLog deps s (ws.map .window) t) :
    Windowed decodePonsLog deps times (delivered ws) s t := by
  induction ws generalizing s with
  | nil =>
    cases hrun
    exact .refl
  | cons w ws ih =>
    cases hrun with
    | cons hstep hrun =>
      have hfirst := CurveTables.window_spec hstep (htimes w List.mem_cons_self)
      exact hfirst.append (ih (fun v hv => htimes v (List.mem_cons_of_mem _ hv)) hrun)

theorem TokenTradeAggregate.of_perm (h : trades.Perm trades') :
    TokenTradeAggregate.of trades = TokenTradeAggregate.of trades' := by
  simp only [TokenTradeAggregate.of, (h.map _).sum_eq, h.length_eq, h.countP_eq]

theorem latestTrade_perm (h : trades.Perm trades')
    (hposition : ∀ a ∈ trades, ∀ b ∈ trades, a.position = b.position → a = b) :
    latestTrade trades = latestTrade trades' := by
  cases htrades : latestTrade trades with
  | none =>
    have hnil : trades = [] := List.argmax_eq_none.mp htrades
    rw [hnil] at h
    rw [List.nil_perm.mp h]
    rfl
  | some a =>
    have ha : a ∈ trades := List.argmax_mem htrades
    cases htrades' : latestTrade trades' with
    | none =>
      rw [List.argmax_eq_none.mp htrades'] at h
      rw [h.eq_nil] at ha
      cases ha
    | some b =>
      have hb : b ∈ trades := h.mem_iff.mpr (List.argmax_mem htrades')
      have hle : b.position ≤ a.position := List.le_of_mem_argmax hb htrades
      have hge : a.position ≤ b.position := List.le_of_mem_argmax (h.mem_iff.mp ha) htrades'
      rw [hposition a ha b hb (le_antisymm hge hle)]

theorem Recomputed.agree {a b : TokenStats} (ha : Recomputed trades a) (hb : Recomputed trades' b)
    (h : trades.Perm trades')
    (hposition : ∀ a ∈ trades, ∀ b ∈ trades, a.position = b.position → a = b)
    (hne : trades ≠ []) : a.Agree b := by
  have hof := TokenTradeAggregate.of_perm h
  have hlatest := latestTrade_perm h hposition
  obtain ⟨latest, hsome⟩ : ∃ latest, latestTrade trades = some latest :=
    Option.ne_none_iff_exists'.mp (mt List.argmax_eq_none.mp hne)
  exact {
    volumeTotal := by rw [ha.volumeTotal, hb.volumeTotal, hof]
    tradeCount := by rw [ha.tradeCount, hb.tradeCount, hof]
    buyCount := by rw [ha.buyCount, hb.buyCount, hof]
    sellCount := by rw [ha.sellCount, hb.sellCount, hof]
    price := by rw [ha.price latest hsome, hb.price latest (hlatest ▸ hsome)]
    lastTradeAt := by rw [ha.lastTradeAt latest hsome, hb.lastTradeAt latest (hlatest ▸ hsome)] }

/-- What is stored in the end depends only on what was stored and on the set of the logs. -/
theorem Windowed.mem_trades {trade : CurveTrade H}
    (h : Windowed decodePonsLog deps (fun blockNumber t => t = timeOf blockNumber) logs s t)
    (hchain : OneChain (Known decodePonsLog deps timeOf s logs)) :
    trade ∈ t.trades ↔ Known decodePonsLog deps timeOf s logs trade := by
  obtain ⟨rows, g, hrows, htrades, -, -⟩ := h
  have hmem : ∀ {row}, row ∈ rows ↔
      ∃ raw ∈ logs, rowOf decodePonsLog deps s.listed (timeOf raw.blockNumber) raw = some row := by
    intro row
    constructor
    · intro hrow
      obtain ⟨raw, hraw, _, rfl, hrowOf⟩ := hrows.mem hrow
      exact ⟨raw, hraw, hrowOf⟩
    · rintro ⟨raw, hraw, hrowOf⟩
      obtain ⟨row', hrow', _, rfl, hrowOf'⟩ := hrows.exists hraw (tradedToken_of_rowOf hrowOf)
      obtain rfl : row' = row := Option.some.inj (hrowOf'.symm.trans hrowOf)
      exact hrow'
  have hknown : ∀ x ∈ s.trades ++ rows, Known decodePonsLog deps timeOf s logs x := fun x hx =>
    (List.mem_append.mp hx).imp_right hmem.mp
  have hunion := @Table.mem_insertMany _ _ _ CurveTrade.key s.trades rows trade
    fun x hx y hy => hchain.key x y (hknown x hx) (hknown y hy)
  rw [htrades, hunion]
  exact or_congr_right hmem

theorem Windowed.nodup_keys (h : Windowed decodePonsLog deps times logs s t)
    (hkeys : (s.trades.map CurveTrade.key).Nodup) : (t.trades.map CurveTrade.key).Nodup := by
  obtain ⟨rows, g, -, htrades, -, -⟩ := h
  rw [htrades]
  exact Table.nodup_insertMany hkeys

theorem rowOf_exists {raw : RawLog H} {timestamp : Nat}
    (h : tradedToken decodePonsLog s.listed raw = some id) :
    ∃ row, rowOf decodePonsLog deps s.listed timestamp raw = some row := by
  simp only [tradedToken, Option.bind_eq_bind, Option.bind_eq_some_iff] at h
  obtain ⟨event, hdecode, args, hargs, ⟨token, supply⟩, hlisted, -⟩ := h
  obtain ⟨price, hprice⟩ := priceFromTrade_ok args.quoteAmount args.tokenAmount
  obtain ⟨cap, hcap⟩ := marketCapFromPrice_ok price supply
  refine ⟨tradeRow deps raw token args price cap timestamp, ?_⟩
  simp [rowOf, hdecode, hargs, hlisted, hprice, hcap, Except.toOption]

theorem oneChain_of_logs (hempty : s.trades = [])
    (hkey : ∀ x ∈ logs, ∀ y ∈ logs,
      x.transactionHash = y.transactionHash → x.logIndex = y.logIndex → x = y)
    (hplace : ∀ x ∈ logs, ∀ y ∈ logs,
      x.blockNumber = y.blockNumber → x.logIndex = y.logIndex → x = y) :
    OneChain (Known decodePonsLog deps timeOf s logs) := by
  have hlog : ∀ trade, Known decodePonsLog deps timeOf s logs trade → ∃ raw ∈ logs,
      rowOf decodePonsLog deps s.listed (timeOf raw.blockNumber) raw = some trade := by
    rintro trade (hstored | hrow)
    · rw [hempty] at hstored
      cases hstored
    · exact hrow
  constructor
  · intro a b ha hb heq
    obtain ⟨x, hx, hax⟩ := hlog a ha
    obtain ⟨y, hy, hby⟩ := hlog b hb
    rw [key_of_rowOf hax, key_of_rowOf hby] at heq
    obtain rfl : x = y := hkey x hx y hy (congrArg Prod.fst heq) (congrArg Prod.snd heq)
    exact Option.some.inj (hax.symm.trans hby)
  · intro a b ha hb heq
    obtain ⟨x, hx, hax⟩ := hlog a ha
    obtain ⟨y, hy, hby⟩ := hlog b hb
    rw [position_of_rowOf hax, position_of_rowOf hby] at heq
    obtain rfl : x = y := hplace x hx y hy (congrArg Prod.fst heq) (congrArg Prod.snd heq)
    exact Option.some.inj (hax.symm.trans hby)

/-- However the logs are delivered in windows, the same trades are stored, one for each log of a
listed curve, and every token that they trade ends with the same stats. -/
theorem deliveries_agree {vs : List (CurveWindow H)} {a b : CurveTables H}
    (hkeys : (s.trades.map CurveTrade.key).Nodup)
    (hstable : StableTimes timeOf ws) (hstable' : StableTimes timeOf vs)
    (hsame : ∀ raw, raw ∈ delivered ws ↔ raw ∈ delivered vs)
    (hchain : OneChain (Known decodePonsLog deps timeOf s (delivered ws)))
    (ha : CurveRun decodePonsLog deps s (ws.map .window) a)
    (hb : CurveRun decodePonsLog deps s (vs.map .window) b) :
    a.trades.Perm b.trades ∧
      (∀ trade, trade ∈ a.trades ↔ Known decodePonsLog deps timeOf s (delivered ws) trade) ∧
      (∀ raw ∈ delivered ws, ∀ id, tradedToken decodePonsLog s.listed raw = some id →
        ∃ row, rowOf decodePonsLog deps s.listed (timeOf raw.blockNumber) raw = some row ∧
          (a.trades.filter fun trade => trade.key = (raw.transactionHash, raw.logIndex)) = [row]) ∧
      ∀ raw ∈ delivered ws, ∀ x ∈ a.tokens, ∀ y ∈ b.tokens,
        tradedToken decodePonsLog s.listed raw = some x.address → y.address = x.address →
          x.stats.Agree y.stats := by
  have hwa : Windowed decodePonsLog deps (fun blockNumber t => t = timeOf blockNumber) _ s a :=
    ha.windowed hstable
  have hwb : Windowed decodePonsLog deps (fun blockNumber t => t = timeOf blockNumber) _ s b :=
    hb.windowed hstable'
  have hknown : ∀ trade, Known decodePonsLog deps timeOf s (delivered ws) trade ↔
      Known decodePonsLog deps timeOf s (delivered vs) trade := fun trade =>
    or_congr_right (exists_congr fun raw => and_congr_left fun _ => hsame raw)
  have hchain' : OneChain (Known decodePonsLog deps timeOf s (delivered vs)) := by
    rwa [← funext fun trade => propext (hknown trade)]
  have hperm : a.trades.Perm b.trades := by
    refine (List.perm_ext_iff_of_nodup (.of_map _ (hwa.nodup_keys hkeys))
      (.of_map _ (hwb.nodup_keys hkeys))).mpr fun trade => ?_
    rw [hwa.mem_trades hchain, hwb.mem_trades hchain', hknown]
  have hstored : ∀ raw ∈ delivered ws, ∀ id, tradedToken decodePonsLog s.listed raw = some id →
      ∃ row ∈ a.trades,
        rowOf decodePonsLog deps s.listed (timeOf raw.blockNumber) raw = some row := by
    intro raw hraw id hid
    obtain ⟨row, hrow⟩ := rowOf_exists hid
    exact ⟨row, (hwa.mem_trades hchain).mpr (.inr ⟨raw, hraw, hrow⟩), hrow⟩
  refine ⟨hperm, fun _ => hwa.mem_trades hchain, fun raw hraw id hid => ?_,
    fun raw hraw x hx y hy hid haddress => ?_⟩
  · obtain ⟨row, hmem, hrow⟩ := hstored raw hraw id hid
    refine ⟨row, hrow, ?_⟩
    rw [← key_of_rowOf hrow]
    exact Table.filter_key (hwa.nodup_keys hkeys) hmem
  · obtain ⟨row, hmem, hrow⟩ := hstored raw hraw _ hid
    have htoken : row.token = x.address :=
      Option.some.inj ((tradedToken_of_rowOf hrow).symm.trans hid)
    have hxs := hwa.recomputed hx ⟨raw, hraw, hid⟩
    have hys := hwb.recomputed hy ⟨raw, (hsame raw).mp hraw, haddress ▸ hid⟩
    rw [haddress] at hys
    refine hxs.agree hys (hperm.filter _) (fun c hc d hd => ?_) ?_
    · have hc := (hwa.mem_trades hchain).mp (List.mem_filter.mp hc).1
      have hd := (hwa.mem_trades hchain).mp (List.mem_filter.mp hd).1
      exact hchain.position c d hc hd
    · exact List.ne_nil_of_mem (List.mem_filter.mpr ⟨hmem, decide_eq_true htoken⟩)

end replay

section sample

def laterLog : RawLog Nat := { sampleLog 6 with transactionHash := 8 }

def bothAtOnce : List (CurveWindow Nat) := [sampleWindow [sampleLog 5, laterLog]]

def backwards : List (CurveWindow Nat) :=
  [sampleWindow [laterLog], sampleWindow [sampleLog 5, laterLog, sampleLog 5]]

theorem bothAtOnce_logs : delivered bothAtOnce = [sampleLog 5, laterLog] := rfl

theorem deliveries_agree_backwards : ∃ a b,
    CurveRun sampleBuy sampleDeps sampleTables (bothAtOnce.map .window) a ∧
      CurveRun sampleBuy sampleDeps sampleTables (backwards.map .window) b ∧
        a.trades.Perm b.trades := by
  obtain ⟨a, ha, -⟩ : ∃ a, CurveRun sampleBuy sampleDeps sampleTables (bothAtOnce.map .window) a ∧
      true = true := @Trace.exists_of_any _ _ _ _ _ (fun _ => true) (by decide)
  obtain ⟨b, hb, -⟩ : ∃ b, CurveRun sampleBuy sampleDeps sampleTables (backwards.map .window) b ∧
      true = true := @Trace.exists_of_any _ _ _ _ _ (fun _ => true) (by decide)
  have hstable : ∀ l : List (List (RawLog Nat)), StableTimes id (l.map sampleWindow) := by
    intro l w hw o ho blockNumber
    obtain ⟨logs, -, rfl⟩ := List.mem_map.mp hw
    rw [List.eq_of_mem_replicate ho]
  have hsame : ∀ raw, raw ∈ delivered bothAtOnce ↔ raw ∈ delivered backwards := by
    intro raw
    simp only [delivered, bothAtOnce, backwards, sampleWindow, List.flatMap_cons, List.flatMap_nil,
      List.append_nil, List.mem_append, List.mem_cons, List.not_mem_nil, or_false]
    tauto
  have hkeys : (sampleTables.trades.map CurveTrade.key).Nodup := .nil
  have hstable₁ : StableTimes id bothAtOnce := hstable [[sampleLog 5, laterLog]]
  have hstable₂ : StableTimes id backwards :=
    hstable [[laterLog], [sampleLog 5, laterLog, sampleLog 5]]
  have hchain : OneChain (Known sampleBuy sampleDeps id sampleTables (delivered bothAtOnce)) := by
    rw [bothAtOnce_logs]
    exact oneChain_of_logs rfl (by decide) (by decide)
  exact ⟨a, b, ha, hb, (deliveries_agree hkeys hstable₁ hstable₂ hsame hchain ha hb).1⟩

end sample

end Stunks.Indexer
