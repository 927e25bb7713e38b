import Stunks.Indexer.CurveWindows

namespace Stunks.Indexer

open Database Pons Utils

variable {H α β : Type}

inductive TokenCall : Type → Type
  | findById (id : Address) : TokenCall (Option TradedToken)
  | aggregateForToken (id : Address) (since : Option Int) : TokenCall TokenTradeAggregate
  | latestForToken (id : Address) : TokenCall (Option LatestTradeInfo)
  | curveState (curve : Address) : TokenCall CurveState
  | updateStats (id : Address) (stats : TokenStats) : TokenCall Unit

abbrev TokenProgram := Async TokenCall Failure

def TokenCall.await (call : TokenCall α) : TokenProgram α := Async.await call

def writeStats (id : Address) : Except JsError TokenStats → TokenProgram Unit
  | .ok stats => (TokenCall.updateStats id stats).await
  | .error error => Async.throw (.error none error.message)

def refreshTokenStats (deps : CurveProcessorDeps) (id : Address) : TokenProgram Unit := do
  let found ← (TokenCall.findById id).await
  match found with
  | none => return ()
  | some token =>
    let aggregate ← (TokenCall.aggregateForToken id none).await
    let dayAggregate ← (TokenCall.aggregateForToken id (some (deps.now - day))).await
    let lastTrade ← (TokenCall.latestForToken id).await
    let state ← (TokenCall.curveState token.curveAddress).await.attempt
    writeStats id (statsOf token aggregate dayAggregate lastTrade state.toOption)

namespace CurveTables

def aggregateForToken (s : CurveTables H) (id : Address) (since : Option Int) :
    TokenTradeAggregate :=
  .of ((tradesOf id s.trades).filter fun trade =>
    since.all fun start => start ≤ (trade.timestamp : Int))

def latestForToken (s : CurveTables H) (id : Address) : Option LatestTradeInfo :=
  (latestTrade (tradesOf id s.trades)).map fun trade =>
    { price := trade.price, timestamp := trade.timestamp }

def updateStats (s : CurveTables H) (id : Address) (stats : TokenStats) : CurveTables H :=
  { s with tokens := s.tokens.map fun token =>
      if token.address = id then token.updateStats stats else token }

end CurveTables

section reads

variable (reads : Address → Except Failure CurveState)

def answerBatch (o : Answers CurveReply) :
    Call H (CurveCall H) β → CurveWorld H → Except Failure β × CurveWorld H
  | .ext (.curveState curve), w => (reads curve, w)
  | call, w => curveBackend.perform o w call

def answerToken : TokenCall β → CurveTables H → Except Failure β × CurveTables H
  | .findById id, s => (.ok (s.tokens.find? fun token => token.address = id), s)
  | .aggregateForToken id since, s => (.ok (s.aggregateForToken id since), s)
  | .latestForToken id, s => (.ok (s.latestForToken id), s)
  | .curveState curve, s => (reads curve, s)
  | .updateStats id stats, s =>
    if s.tokens.any fun token => token.address = id then (.ok (), s.updateStats id stats)
    else (.error recordNotFound, s)

structure CountersOf (deps : CurveProcessorDeps) (trades : List (CurveTrade H))
    (stats : TokenStats) :
    Prop extends Recomputed trades stats where
  volume24h : stats.volume24h = (TokenTradeAggregate.of
    (trades.filter fun trade => deps.now - day ≤ (trade.timestamp : Int))).volume

def CountsAnew (deps : CurveProcessorDeps) (ids : List Address) (s t : CurveTables H) : Prop :=
  List.Forall₂ (fun before after => before.address ∈ ids →
    CountersOf deps (tradesOf before.address s.trades) after.stats) s.tokens t.tokens

def KeepsLastKnown (ids : List Address) (s t : CurveTables H) : Prop :=
  List.Forall₂ (fun before after => before.address ∈ ids →
    (∃ failure, reads before.curveAddress = .error failure) →
      after.stats.realQuoteReserve = before.stats.realQuoteReserve ∧
        after.stats.graduationBps = before.stats.graduationBps) s.tokens t.tokens

/-- There was nothing to lose: what is stored of every unread curve is zero. -/
def NothingKnown (ids : List Address) (s : CurveTables H) : Prop :=
  ∀ token ∈ s.tokens, token.address ∈ ids →
    (∃ failure, reads token.curveAddress = .error failure) →
      token.stats.realQuoteReserve = 0 ∧ token.stats.graduationBps = 0

structure RefreshedFrom (deps : CurveProcessorDeps) (trades : List (CurveTrade H))
    (before after : TradedToken) : Prop where
  stats : ∃ stats, after = before.updateStats stats ∧
    statsOf before (.of (tradesOf before.address trades))
      (.of ((tradesOf before.address trades).filter fun trade =>
        deps.now - day ≤ (trade.timestamp : Int)))
      ((latestTrade (tradesOf before.address trades)).map fun trade =>
        { price := trade.price, timestamp := trade.timestamp })
      (reads before.curveAddress).toOption = .ok stats

/-- No token of `ids` is known, or one that is has a trade. -/
def Writable (ids : List Address) (s : CurveTables H) : Prop :=
  (∀ token ∈ s.tokens, token.address ∉ ids) ∨
    ∃ token ∈ s.tokens, token.address ∈ ids ∧ ∃ trade ∈ s.trades, trade.token = token.address

def Refreshed (deps : CurveProcessorDeps) (ids : List Address) (s t : CurveTables H) : Prop :=
  List.Forall₂ (fun before after => before.address ∈ ids →
    RefreshedFrom reads deps s.trades before after) s.tokens t.tokens

def recomputed (deps : CurveProcessorDeps) (trades : List (CurveTrade H)) (token : TradedToken) :
    Except JsError TokenStats :=
  statsOf token (.of (tradesOf token.address trades))
    (.of ((tradesOf token.address trades).filter fun trade =>
      deps.now - day ≤ (trade.timestamp : Int)))
    ((latestTrade (tradesOf token.address trades)).map fun trade =>
      { price := trade.price, timestamp := trade.timestamp })
    (reads token.curveAddress).toOption

def refreshedToken (deps : CurveProcessorDeps) (trades : List (CurveTrade H))
    (token : TradedToken) : TradedToken :=
  match recomputed reads deps trades token with
  | .ok stats => token.updateStats stats
  | .error _ => token

def CurveTables.refreshed (deps : CurveProcessorDeps) (ids : List Address) (s : CurveTables H) :
    CurveTables H :=
  { s with tokens := s.tokens.map fun token =>
      if token.address ∈ ids then refreshedToken reads deps s.trades token else token }

variable {reads} {deps : CurveProcessorDeps} {s t : CurveTables H} {ids : List Address}

theorem statsOf_ok (token : TradedToken) (aggregate dayAggregate : TokenTradeAggregate)
    (lastTrade : Option LatestTradeInfo) (state : Option CurveState) :
    ∃ stats, statsOf token aggregate dayAggregate lastTrade state = .ok stats := by
  obtain ⟨marketCap, hcap⟩ := marketCapFromPrice_ok
    ((lastTrade.map LatestTradeInfo.price).getD 0) token.totalSupply
  simp only [statsOf, hcap, ok_bind]
  exact ⟨_, rfl⟩

theorem statsRows_ok (tokens : List TradedToken)
    (totals daily : Address → Option TokenTradeAggregate)
    (latest : Address → Option LatestTradeInfo) (states : List (Address × Option CurveState)) :
    ∃ rows, statsRows tokens totals daily latest states = .ok rows := by
  induction states with
  | nil => exact ⟨[], rfl⟩
  | cons entry rest ih =>
    obtain ⟨id, state⟩ := entry
    obtain ⟨rows, hrows⟩ := ih
    unfold statsRows
    split
    · exact ⟨rows, hrows⟩
    · rename_i token _
      obtain ⟨stats, hstats⟩ := statsOf_ok token ((totals id).getD noTrades)
        ((daily id).getD noTrades) (latest id) state
      simp only [hstats, hrows, ok_bind]
      exact ⟨_, rfl⟩

theorem RefreshedFrom.unread {before after : TradedToken}
    (h : RefreshedFrom reads deps s.trades before after) {failure : Failure}
    (hread : reads before.curveAddress = .error failure) :
    after.stats.realQuoteReserve = 0 ∧ after.stats.graduationBps = 0 := by
  obtain ⟨stats, rfl, hstats⟩ := h.stats
  rw [← TradedToken.updateStatsMany_eq]
  obtain ⟨marketCap, -, hstats⟩ := bind_eq_ok.mp hstats
  obtain rfl := Except.ok.inj hstats
  simp [TradedToken.updateStatsMany, hread, Except.toOption]

theorem RefreshedFrom.counters {before after : TradedToken}
    (h : RefreshedFrom reads deps s.trades before after) :
    CountersOf deps (tradesOf before.address s.trades) after.stats := by
  obtain ⟨stats, rfl, hstats⟩ := h.stats
  rw [← TradedToken.updateStatsMany_eq]
  refine ⟨statsOf_recomputed hstats, ?_⟩
  obtain ⟨marketCap, -, hstats⟩ := bind_eq_ok.mp hstats
  obtain rfl := Except.ok.inj hstats
  rfl

theorem Refreshed.countsAnew (h : Refreshed reads deps ids s t) : CountsAnew deps ids s t :=
  h.imp fun _ _ hrow hid => (hrow hid).counters

theorem Refreshed.keeps_iff (h : Refreshed reads deps ids s t) :
    KeepsLastKnown reads ids s t ↔ NothingKnown reads ids s := by
  unfold KeepsLastKnown NothingKnown
  rw [Refreshed] at h
  generalize s.tokens = before at h
  generalize t.tokens = after at h
  induction h with
  | nil => simp
  | cons hrow _ ih =>
    rw [List.forall₂_cons, List.forall_mem_cons, ih]
    refine and_congr_left fun _ => forall_congr' fun hid => forall_congr' fun ⟨failure, hread⟩ => ?_
    obtain ⟨hreserve, hbps⟩ := (hrow hid).unread hread
    rw [hreserve, hbps]
    exact ⟨fun ⟨h, h'⟩ => ⟨h.symm, h'.symm⟩, fun ⟨h, h'⟩ => ⟨h.symm, h'.symm⟩⟩

theorem find_address {tokens : List TradedToken} (hs : (tokens.map TradedToken.address).Nodup)
    {token : TradedToken} (htoken : token ∈ tokens) :
    tokens.find? (fun other => other.address = token.address) = some token := by
  have hsome : (tokens.find? fun other => other.address = token.address).isSome :=
    List.find?_isSome.mpr ⟨token, htoken, by simp⟩
  obtain ⟨found, hfound⟩ := Option.isSome_iff_exists.mp hsome
  have hsame : found.address = token.address := by simpa using List.find?_some hfound
  rw [hfound, List.inj_on_of_nodup_map hs (List.mem_of_find?_eq_some hfound) htoken hsame]

variable (reads deps)

theorem recomputed_ok (trades : List (CurveTrade H)) (token : TradedToken) :
    ∃ stats, recomputed reads deps trades token = .ok stats :=
  statsOf_ok ..

variable {reads deps} in
theorem refreshedToken_eq {trades : List (CurveTrade H)} {token : TradedToken} {stats : TokenStats}
    (h : recomputed reads deps trades token = .ok stats) :
    refreshedToken reads deps trades token = token.updateStats stats := by
  unfold refreshedToken
  rw [h]

theorem refreshed_refreshed (ids : List Address) (s : CurveTables H) :
    Refreshed reads deps ids s (s.refreshed reads deps ids) := by
  refine List.forall₂_map_right_iff.mpr (List.forall₂_same.mpr fun token _ hid => ?_)
  obtain ⟨stats, hstats⟩ := recomputed_ok reads deps s.trades token
  rw [if_pos hid, refreshedToken_eq hstats]
  exact ⟨stats, rfl, hstats⟩

def statesOf (tokens : List TradedToken) (ids : List Address) :
    List (Address × Option CurveState) :=
  ids.map fun id => (id, (tokens.find? fun token => token.address = id).bind fun token =>
    (reads token.curveAddress).toOption)

theorem statesOf_keys (tokens : List TradedToken) (ids : List Address) :
    (statesOf reads tokens ids).map Prod.fst = ids := by
  unfold statesOf
  rw [List.map_map]
  exact List.map_id _

section answered

variable {exec : {β : Type} → Call H (CurveCall H) β → CurveWorld H → Except Failure β × CurveWorld H}
  {w : CurveWorld H}

theorem readStates_run (hreads : ∀ curve, exec (.ext (.curveState curve)) w = (reads curve, w))
    (entries : List (Address × Option TradedToken)) : (readStates entries).run exec w =
      (.ok (entries.map fun entry =>
        (entry.1, entry.2.bind fun token => (reads token.curveAddress).toOption)), w) := by
  induction entries with
  | nil => rfl
  | cons entry rest ih =>
    obtain ⟨id, _ | token⟩ := entry
    · exact Async.run_bind_ok ih
    · have hread : (CurveCall.await (.curveState token.curveAddress) :
          CurveProgram H CurveState).attempt.run exec w = (.ok (reads token.curveAddress), w) := by
        rw [Async.run_attempt]
        exact congrArg (fun answer => (Except.ok answer.1, answer.2)) (hreads token.curveAddress)
      exact (Async.run_bind_ok hread).trans (Async.run_bind_ok ih)

theorem run_ask {call : CurveCall H β} {rest : β → CurveProgram H α} {answer : β}
    {t : CurveWorld H} (h : exec (.ext call) w = (.ok answer, t)) :
    (call.await >>= rest).run exec w = (rest answer).run exec t :=
  Async.run_bind_ok (show call.await.run exec w = (.ok answer, t) from h)

theorem refreshTokenStatsBatch_answered {t : CurveWorld H} {tokens : List TradedToken}
    {totals daily : Address → Option TokenTradeAggregate}
    {latest : Address → Option LatestTradeInfo} {rows : List StatsRow} (hids : ids ≠ [])
    (htokens : exec (.ext (.curveAddressesFor ids)) w = (.ok tokens, w))
    (htotals : exec (.ext (.aggregateForTokens ids none)) w = (.ok totals, w))
    (hdaily : exec (.ext (.aggregateForTokens ids (some (deps.now - day)))) w = (.ok daily, w))
    (hlatest : exec (.ext (.latestForTokens ids)) w = (.ok latest, w))
    (hreads : ∀ curve, exec (.ext (.curveState curve)) w = (reads curve, w))
    (hrows : statsRows tokens totals daily latest (statesOf reads tokens ids) = .ok rows)
    {written : Except Failure Nat} (hupdate : exec (.ext (.updateStatsMany rows)) w = (written, t)) :
    (refreshTokenStatsBatch deps ids).run exec w = (written.map fun _ => (), t) := by
  have hstates := readStates_run reads hreads
    (ids.map fun id => (id, tokens.find? fun token => token.address = id))
  rw [List.map_map] at hstates
  have hthrowing : (throwing (statsRows tokens totals daily latest (statesOf reads tokens ids)) :
      CurveProgram H _).run exec w = (.ok rows, w) := by
    rw [hrows]
    rfl
  unfold refreshTokenStatsBatch
  rw [if_neg fun hlength => hids (List.length_eq_zero_iff.mp hlength)]
  refine (run_ask htokens).trans ((run_ask htotals).trans ((run_ask hdaily).trans
    ((run_ask hlatest).trans ((Async.run_bind_ok hstates).trans
      ((Async.run_bind_ok hthrowing).trans ?_)))))
  cases written with
  | ok _ => exact run_ask hupdate
  | error _ => exact Async.run_bind_error hupdate

end answered

def batchRows (s : CurveTables H) (ids : List Address) : Except JsError (List StatsRow) :=
  let tokens := s.tokens.filter fun token => token.address ∈ ids
  statsRows tokens (s.aggregateForTokens ids none)
    (s.aggregateForTokens ids (some (deps.now - day)))
    (s.latestForTokens ids) (statesOf reads tokens ids)

variable {reads deps}

theorem of_mem_statsRows {tokens : List TradedToken}
    {totals daily : Address → Option TokenTradeAggregate}
    {latest : Address → Option LatestTradeInfo} {states : List (Address × Option CurveState)}
    {rows : List StatsRow} (h : statsRows tokens totals daily latest states = .ok rows)
    {row : StatsRow} (hrow : row ∈ rows) :
    ∃ token state, tokens.find? (fun token => token.address = row.token) = some token ∧
      (row.token, state) ∈ states ∧ statsOf token ((totals row.token).getD noTrades)
        ((daily row.token).getD noTrades) (latest row.token) state = .ok row.stats := by
  induction states generalizing rows with
  | nil =>
    cases h
    cases hrow
  | cons entry rest ih =>
    obtain ⟨id, state⟩ := entry
    unfold statsRows at h
    split at h
    · obtain ⟨token, state', hfound, hmem, hstats⟩ := ih h hrow
      exact ⟨token, state', hfound, List.mem_cons_of_mem _ hmem, hstats⟩
    · rename_i token hfound
      obtain ⟨stats, hstats, h⟩ := bind_eq_ok.mp h
      obtain ⟨rows', hrest, h⟩ := bind_eq_ok.mp h
      obtain rfl : { token := id, stats } :: rows' = rows := Except.ok.inj h
      rcases List.mem_cons.mp hrow with rfl | hrow
      · exact ⟨token, state, hfound, List.mem_cons_self, hstats⟩
      · obtain ⟨token', state', hfound', hmem, hstats'⟩ := ih hrest hrow
        exact ⟨token', state', hfound', List.mem_cons_of_mem _ hmem, hstats'⟩

theorem statsOf_lastTradeAt {token : TradedToken} {aggregate dayAggregate : TokenTradeAggregate}
    {lastTrade : Option LatestTradeInfo} {state : Option CurveState} {stats : TokenStats}
    (h : statsOf token aggregate dayAggregate lastTrade state = .ok stats) :
    stats.lastTradeAt = lastTrade.map LatestTradeInfo.timestamp := by
  obtain ⟨marketCap, -, h⟩ := bind_eq_ok.mp h
  obtain rfl := Except.ok.inj h
  rfl

theorem latestTrade_isSome {trades : List (CurveTrade H)} {id : Address} :
    (latestTrade (tradesOf id trades)).isSome = true ↔ ∃ trade ∈ trades, trade.token = id := by
  rw [Option.isSome_iff_ne_none, latestTrade, ne_eq, List.argmax_eq_none]
  simp [tradesOf]

theorem mem_batchRows {rows : List StatsRow}
    (hrows : batchRows reads deps s ids = .ok rows) {row : StatsRow} (hrow : row ∈ rows) :
    ∃ token ∈ s.tokens, token.address = row.token ∧ row.token ∈ ids ∧
      (row.stats.lastTradeAt.isSome = true ↔ ∃ trade ∈ s.trades, trade.token = row.token) := by
  obtain ⟨token, state, hfound, hstate, hstats⟩ := of_mem_statsRows hrows hrow
  have htoken := List.mem_filter.mp (List.mem_of_find?_eq_some hfound)
  have haddress : token.address = row.token := by simpa using List.find?_some hfound
  have hid : row.token ∈ ids := by
    rw [← statesOf_keys reads (s.tokens.filter fun token => token.address ∈ ids) ids]
    exact List.mem_map_of_mem hstate
  refine ⟨token, htoken.1, haddress, hid, ?_⟩
  rw [statsOf_lastTradeAt hstats, CurveTables.latestForTokens, if_pos hid, Option.isSome_map,
    Option.isSome_map, latestTrade_isSome]

theorem exists_batchRow {rows : List StatsRow} (hs : (s.tokens.map TradedToken.address).Nodup)
    (hrows : batchRows reads deps s ids = .ok rows) {token : TradedToken} (htoken : token ∈ s.tokens)
    (hid : token.address ∈ ids) : ∃ row ∈ rows, row.token = token.address := by
  have hfiltered : token ∈ s.tokens.filter fun token => token.address ∈ ids :=
    List.mem_filter.mpr ⟨htoken, decide_eq_true hid⟩
  have hfound := find_address (hs.sublist (List.filter_sublist.map _)) hfiltered
  obtain ⟨-, hsome⟩ := statsRows_find hrows token.address
  rw [statesOf_keys] at hsome
  obtain ⟨state, stats, -, -, hrow⟩ := hsome token hfound hid
  exact ⟨_, List.mem_of_find?_eq_some hrow, rfl⟩

theorem updateStatsMany_writable {rows : List StatsRow}
    (hs : (s.tokens.map TradedToken.address).Nodup) (hrows : batchRows reads deps s ids = .ok rows)
    (hids : Writable ids s) {pick : List StatsRow → Address → Option StatsRow}
    (hpick : pick [] = fun _ => none) :
    ∃ n, s.updateStatsMany pick rows = (.ok n, s.updateFrom (pick rows)) := by
  unfold CurveTables.updateStatsMany
  split
  · rename_i hempty
    rw [List.eq_nil_of_length_eq_zero hempty, hpick, updateFrom_none]
    exact ⟨0, rfl⟩
  · rename_i hsome
    rw [if_pos]
    · exact ⟨_, rfl⟩
    · rcases hids with hnone | ⟨token, htoken, hid, htraded⟩
      · obtain ⟨row, hrow⟩ := List.exists_mem_of_length_pos (Nat.pos_of_ne_zero hsome)
        obtain ⟨token, htoken, haddress, hid, -⟩ := mem_batchRows hrows hrow
        exact absurd (haddress ▸ hid) (hnone token htoken)
      · obtain ⟨row, hrow, haddress⟩ := exists_batchRow hs hrows htoken hid
        obtain ⟨-, -, -, -, htime⟩ := mem_batchRows hrows hrow
        exact List.any_eq_true.mpr ⟨row, hrow, htime.mpr (haddress ▸ htraded)⟩

theorem updateStatsMany_mismatched {rows : List StatsRow}
    (hs : (s.tokens.map TradedToken.address).Nodup) (hrows : batchRows reads deps s ids = .ok rows)
    (hids : ¬ Writable ids s) (pick : List StatsRow → Address → Option StatsRow) :
    s.updateStatsMany pick rows = (.error mismatchedTypes, s) := by
  unfold Writable at hids
  push Not at hids
  obtain ⟨⟨token, htoken, hid⟩, huntraded⟩ := hids
  obtain ⟨row, hrow, -⟩ := exists_batchRow hs hrows htoken hid
  have hany : rows.any (fun row => row.stats.lastTradeAt.isSome) = false := by
    rw [List.any_eq_false]
    intro row' hrow' htime
    obtain ⟨token', htoken', haddress, hid', hiff⟩ := mem_batchRows hrows hrow'
    obtain ⟨trade, htrade, hsame⟩ := hiff.mp htime
    exact huntraded token' htoken' (haddress ▸ hid') trade htrade (hsame.trans haddress.symm)
  unfold CurveTables.updateStatsMany
  rw [if_neg (List.length_pos_of_mem hrow).ne', hany]
  rfl

theorem updateFrom_rows {rows : List StatsRow} (hs : (s.tokens.map TradedToken.address).Nodup)
    (hrows : batchRows reads deps s ids = .ok rows) :
    s.updateFrom (firstRow rows) = s.refreshed reads deps ids := by
  refine congrArg (fun tokens => ({ s with tokens } : CurveTables H)) ?_
  refine List.map_congr_left fun token htoken => ?_
  obtain ⟨hnone, hsome⟩ := statsRows_find hrows token.address
  rw [statesOf_keys] at hnone hsome
  by_cases hid : token.address ∈ ids
  · have hfiltered : token ∈ s.tokens.filter fun token => token.address ∈ ids :=
      List.mem_filter.mpr ⟨htoken, decide_eq_true hid⟩
    have hfound := find_address (hs.sublist (List.filter_sublist.map _)) hfiltered
    obtain ⟨state, stats, hstate, hstats, hrow⟩ := hsome token hfound hid
    have hread : state = (reads token.curveAddress).toOption := by
      obtain ⟨id, -, heq⟩ := List.mem_map.mp hstate
      obtain ⟨rfl, rfl⟩ := Prod.mk.inj heq
      rw [hfound]
      rfl
    have hrecomputed : recomputed reads deps s.trades token = .ok stats := by
      simpa [CurveTables.aggregateForTokens, CurveTables.latestForTokens, if_pos hid, hread,
        recomputed] using hstats
    rw [if_pos hid, refreshedToken_eq hrecomputed, hrow]
    exact TradedToken.updateStatsMany_eq
  · rw [if_neg hid, hnone hid]

theorem refreshed_nil (s : CurveTables H) : s.refreshed reads deps [] = s := by
  unfold CurveTables.refreshed
  simp

variable (reads deps)

theorem refreshTokenStatsBatch_exact (o : Answers CurveReply) {ids : List Address}
    {w : CurveWorld H} (hs : (w.base.tokens.map TradedToken.address).Nodup)
    (hids : Writable ids w.base) :
    (refreshTokenStatsBatch deps ids).run (answerBatch reads o) w =
      (.ok (), { w with base := w.base.refreshed reads deps ids }) := by
  by_cases hnil : ids = []
  · rw [hnil, refreshed_nil]
    rfl
  · obtain ⟨rows, hrows⟩ : ∃ rows, batchRows reads deps w.base ids = .ok rows := statsRows_ok ..
    obtain ⟨n, hwritten⟩ :=
      updateStatsMany_writable hs hrows hids (show firstRow [] = fun _ => none from rfl)
    rw [← updateFrom_rows hs hrows]
    have hupdate : answerBatch reads o (.ext (.updateStatsMany rows)) w =
        (.ok n, { w with base := w.base.updateFrom (firstRow rows) }) :=
      congrArg (fun answer => (answer.1, { w with base := answer.2 })) hwritten
    exact (refreshTokenStatsBatch_answered reads deps hnil rfl rfl rfl rfl (fun _ => rfl) hrows
      hupdate).trans rfl

theorem refreshTokenStatsBatch_mismatched (o : Answers CurveReply) {ids : List Address}
    {w : CurveWorld H} (hs : (w.base.tokens.map TradedToken.address).Nodup)
    (hids : ¬ Writable ids w.base) :
    (refreshTokenStatsBatch deps ids).run (answerBatch reads o) w = (.error mismatchedTypes, w) := by
  have hnil : ids ≠ [] := by
    rintro rfl
    exact hids (.inl fun _ _ => List.not_mem_nil)
  obtain ⟨rows, hrows⟩ : ∃ rows, batchRows reads deps w.base ids = .ok rows := statsRows_ok ..
  have hupdate : answerBatch reads o (.ext (.updateStatsMany rows)) w =
      (.error mismatchedTypes, w) :=
    congrArg (fun answer => (answer.1, { w with base := answer.2 }))
      (updateStatsMany_mismatched hs hrows hids firstRow)
  exact (refreshTokenStatsBatch_answered reads deps hnil rfl rfl rfl rfl (fun _ => rfl) hrows
    hupdate).trans rfl

theorem refreshTokenStats_exact (id : Address) (hs : (s.tokens.map TradedToken.address).Nodup) :
    (refreshTokenStats deps id).run (answerToken reads) s =
      (.ok (), s.refreshed reads deps [id]) := by
  unfold refreshTokenStats
  cases hfound : s.tokens.find? fun token => token.address = id with
  | none =>
    have hnone : ∀ token ∈ s.tokens, token.address ≠ id := by simpa using hfound
    have hsame : s.refreshed reads deps [id] = s := by
      refine congrArg (fun tokens => ({ s with tokens } : CurveTables H)) ?_
      refine (List.map_congr_left fun token htoken => ?_).trans (List.map_id _)
      rw [if_neg fun hid => hnone token htoken (List.mem_singleton.mp hid)]
      rfl
    rw [hsame]
    refine (Async.run_bind_ok (congrArg (fun found => (Except.ok found, s)) hfound)).trans ?_
    rfl
  | some token =>
    obtain rfl : token.address = id := by simpa using List.find?_some hfound
    have htoken := List.mem_of_find?_eq_some hfound
    obtain ⟨stats, hstats⟩ := recomputed_ok reads deps s.trades token
    have hupdated : s.refreshed reads deps [token.address] = s.updateStats token.address stats := by
      refine congrArg (fun tokens => ({ s with tokens } : CurveTables H)) ?_
      refine List.map_congr_left fun other hother => ?_
      by_cases hsame : other.address = token.address
      · obtain rfl := List.inj_on_of_nodup_map hs hother htoken hsame
        rw [if_pos (List.mem_singleton.mpr rfl), if_pos rfl, refreshedToken_eq hstats]
      · rw [if_neg fun hid => hsame (List.mem_singleton.mp hid), if_neg hsame]
    have hfind : (TokenCall.findById token.address).await.run (answerToken reads) s =
        (.ok (some token), s) := congrArg (fun found => (Except.ok found, s)) hfound
    have htotal : (TokenCall.aggregateForToken token.address none).await.run
        (answerToken reads) s = (.ok (s.aggregateForToken token.address none), s) := rfl
    have hdaily : (TokenCall.aggregateForToken token.address (some (deps.now - day))).await.run
        (answerToken reads) s =
          (.ok (s.aggregateForToken token.address (some (deps.now - day))), s) := rfl
    have hlatest : (TokenCall.latestForToken token.address).await.run (answerToken reads) s =
        (.ok (s.latestForToken token.address), s) := rfl
    have hread : (TokenCall.curveState token.curveAddress).await.attempt.run
        (answerToken reads) s = (.ok (reads token.curveAddress), s) := Async.run_attempt _ s
    have hany : (s.tokens.any fun other => other.address = token.address) = true :=
      List.any_eq_true.mpr ⟨token, htoken, by simp⟩
    have hwrite : statsOf token (s.aggregateForToken token.address none)
        (s.aggregateForToken token.address (some (deps.now - day)))
        (s.latestForToken token.address) (reads token.curveAddress).toOption = .ok stats := by
      simpa [CurveTables.aggregateForToken, CurveTables.latestForToken, recomputed] using hstats
    refine (Async.run_bind_ok hfind).trans ((Async.run_bind_ok htotal).trans
      ((Async.run_bind_ok hdaily).trans ((Async.run_bind_ok hlatest).trans
        ((Async.run_bind_ok hread).trans ?_))))
    rw [hwrite, hupdated]
    change answerToken reads (.updateStats token.address stats) s = _
    simp only [answerToken, hany, if_true]

theorem refreshTokenStatsBatch_run (o : Answers CurveReply) {ids : List Address}
    {w : CurveWorld H} (hs : (w.base.tokens.map TradedToken.address).Nodup)
    (hids : Writable ids w.base) :
    ∃ t, (refreshTokenStatsBatch deps ids).run (answerBatch reads o) w = (.ok (), t) ∧
      Refreshed reads deps ids w.base t.base :=
  ⟨_, refreshTokenStatsBatch_exact reads deps o hs hids, refreshed_refreshed ..⟩

theorem refreshTokenStats_run (id : Address) (hs : (s.tokens.map TradedToken.address).Nodup) :
    ∃ t, (refreshTokenStats deps id).run (answerToken reads) s = (.ok (), t) ∧
      Refreshed reads deps [id] s t :=
  ⟨_, refreshTokenStats_exact reads deps id hs, refreshed_refreshed ..⟩

/-- A refresh that is written counts its tokens anew whatever the curves answer, and keeps the last
known values of the curves that do not exactly when these are zero. -/
theorem lastKnown_kept_iff {w : CurveWorld H} (hs : (w.base.tokens.map TradedToken.address).Nodup) :
    (∀ o ids,
      ((∃ t, (refreshTokenStatsBatch deps ids).run (answerBatch reads o) w = (.ok (), t) ∧
        CountsAnew deps ids w.base t.base) ↔ Writable ids w.base) ∧
      ((∃ t, (refreshTokenStatsBatch deps ids).run (answerBatch reads o) w = (.ok (), t) ∧
        CountsAnew deps ids w.base t.base ∧ KeepsLastKnown reads ids w.base t.base) ↔
          Writable ids w.base ∧ NothingKnown reads ids w.base)) ∧
      ∀ id, ∃ t, (refreshTokenStats deps id).run (answerToken reads) w.base = (.ok (), t) ∧
        CountsAnew deps [id] w.base t ∧
          (KeepsLastKnown reads [id] w.base t ↔ NothingKnown reads [id] w.base) := by
  constructor
  · intro o ids
    by_cases hids : Writable ids w.base
    · obtain ⟨t, hrun, hrefreshed⟩ := refreshTokenStatsBatch_run reads deps o hs hids
      constructor
      · exact iff_of_true ⟨t, hrun, hrefreshed.countsAnew⟩ hids
      · rw [and_iff_right hids, ← hrefreshed.keeps_iff]
        refine ⟨?_, fun hkeeps => ⟨t, hrun, hrefreshed.countsAnew, hkeeps⟩⟩
        rintro ⟨t', hrun', -, hkeeps⟩
        obtain rfl : t = t' := congrArg Prod.snd (hrun.symm.trans hrun')
        exact hkeeps
    · have hrun := refreshTokenStatsBatch_mismatched reads deps o hs hids
      have hnot : ∀ {P : CurveWorld H → Prop},
          ¬ ∃ t, (refreshTokenStatsBatch deps ids).run (answerBatch reads o) w = (.ok (), t) ∧
            P t := by
        rintro P ⟨t, hok, -⟩
        rw [hrun] at hok
        cases hok
      exact ⟨iff_of_false hnot hids, iff_of_false hnot fun h => hids h.1⟩
  · intro id
    obtain ⟨t, hrun, hrefreshed⟩ := refreshTokenStats_run reads deps id hs
    exact ⟨t, hrun, hrefreshed.countsAnew, hrefreshed.keeps_iff⟩

end reads

section sample

def unreadable (_ : Address) : Except Failure CurveState :=
  .error (.error none "execution reverted")

def graduatedToken : TradedToken where
  address := 1
  curveAddress := 2
  totalSupply := 1000
  phase := .poolCreated
  stats := {
    realQuoteReserve := 42, graduationBps := 10000, price := 0, marketCap := 0, volume24h := 0
    volumeTotal := 0, holderCount := 0, tradeCount := 0, buyCount := 0, sellCount := 0
    lastTradeAt := none }

def graduatedTrade : CurveTrade Nat where
  transactionHash := 7
  logIndex := 0
  blockNumber := 3
  blockHash := 30
  token := 1
  curveAddress := 2
  venue := .curve
  traderAddress := 5
  recipientAddress := 5
  side := .buy
  tokenAmount := 10
  quoteAmount := 20
  feeAmount := 0
  creatorTaxAmount := 0
  snipeTaxAmount := 0
  refundAmount := 0
  price := 2
  marketCap := 2000
  timestamp := 1
  excludedFromCompetition := false
  exclusionReason := none

def graduatedWorld : CurveWorld Nat where
  tables := .empty
  base := { tokens := [graduatedToken], trades := [graduatedTrade] }

def refreshDeps : CurveProcessorDeps where
  now := 0

theorem lastKnown_kept_iff_graduated :
    (∀ o ids,
      ((∃ t, (refreshTokenStatsBatch refreshDeps ids).run (answerBatch unreadable o)
          graduatedWorld = (.ok (), t) ∧
        CountsAnew refreshDeps ids graduatedWorld.base t.base) ↔ Writable ids graduatedWorld.base) ∧
      ((∃ t, (refreshTokenStatsBatch refreshDeps ids).run (answerBatch unreadable o)
          graduatedWorld = (.ok (), t) ∧
        CountsAnew refreshDeps ids graduatedWorld.base t.base ∧
          KeepsLastKnown unreadable ids graduatedWorld.base t.base) ↔
          Writable ids graduatedWorld.base ∧ NothingKnown unreadable ids graduatedWorld.base)) ∧
      ∀ id, ∃ t, (refreshTokenStats refreshDeps id).run (answerToken unreadable)
          graduatedWorld.base = (.ok (), t) ∧
        CountsAnew refreshDeps [id] graduatedWorld.base t ∧
          (KeepsLastKnown unreadable [id] graduatedWorld.base t ↔
            NothingKnown unreadable [id] graduatedWorld.base) :=
  lastKnown_kept_iff unreadable refreshDeps (show (graduatedWorld.base.tokens.map
    TradedToken.address).Nodup by decide)

theorem graduated_refreshed {t : CurveTables Nat}
    (h : Refreshed unreadable refreshDeps [1] graduatedWorld.base t) :
    t.tokens.map (fun token => token.stats.realQuoteReserve) = [0] ∧
      ¬KeepsLastKnown unreadable [1] graduatedWorld.base t := by
  constructor
  · obtain ⟨after, rest, hrow, hrest, htokens⟩ := List.forall₂_cons_left_iff.mp h
    rw [List.forall₂_nil_left_iff.mp hrest] at htokens
    have hzero := ((hrow (by decide)).unread rfl).1
    rw [htokens, List.map_singleton, hzero]
  · rw [h.keeps_iff]
    intro hnothing
    have hzero := (hnothing _ List.mem_cons_self (by decide) ⟨_, rfl⟩).1
    exact absurd hzero (by decide)

/-- The reserve of 42 becomes 0, in the batch and alone. -/
theorem graduated_reserve_lost :
    (∀ o, ∃ t, (refreshTokenStatsBatch refreshDeps [1]).run (answerBatch unreadable o)
        graduatedWorld = (.ok (), t) ∧
      t.base.tokens.map (fun token => token.stats.realQuoteReserve) = [0] ∧
        ¬KeepsLastKnown unreadable [1] graduatedWorld.base t.base) ∧
      ∃ t, (refreshTokenStats refreshDeps 1).run (answerToken unreadable) graduatedWorld.base =
          (.ok (), t) ∧ t.tokens.map (fun token => token.stats.realQuoteReserve) = [0] ∧
        ¬KeepsLastKnown unreadable [1] graduatedWorld.base t := by
  have hs : (graduatedWorld.base.tokens.map TradedToken.address).Nodup := by decide
  constructor
  · intro o
    have hids : Writable [1] graduatedWorld.base :=
      .inr ⟨graduatedToken, List.mem_cons_self, by decide, graduatedTrade, List.mem_cons_self, rfl⟩
    obtain ⟨t, hrun, hrefreshed⟩ := refreshTokenStatsBatch_run unreadable refreshDeps o hs hids
    exact ⟨t, hrun, graduated_refreshed hrefreshed⟩
  · obtain ⟨t, hrun, hrefreshed⟩ := refreshTokenStats_run unreadable refreshDeps 1 hs
    exact ⟨t, hrun, graduated_refreshed hrefreshed⟩

end sample

end Stunks.Indexer
