import Stunks.Indexer.StatsQueries

namespace Stunks.Indexer

open Database Pons Utils

variable {H α β : Type}

/-- Which of the rows of its values an `UPDATE … FROM` joins a row of the table with. -/
structure Join where
  pick : List StatsRow → Address → Option StatsRow
  of_pick : ∀ {rows id row}, pick rows id = some row → row ∈ rows ∧ row.token = id
  pick_none : ∀ {rows id}, pick rows id = none → ∀ row ∈ rows, row.token ≠ id

instance : Inhabited Join where
  default := {
    pick := fun rows id => rows.find? fun row => row.token = id
    of_pick := fun h => ⟨List.mem_of_find?_eq_some h, by simpa using List.find?_some h⟩
    pick_none := fun h => by simpa using h }

/-- One id after another. -/
def refreshInTurn (deps : CurveProcessorDeps) : List Address → TokenProgram Unit
  | [] => return ()
  | id :: ids => do
    refreshTokenStats deps id
    refreshInTurn deps ids

section batch

variable (reads : Address → Except Failure CurveState)

def answerQueries (join : Join) (o : Answers CurveReply) :
    Call H (CurveCall H) β → CurveWorld H → Except Failure β × CurveWorld H
  | .ext (.aggregateForTokens ids since), w => (.ok (aggregateQuery w.base.trades ids since), w)
  | .ext (.latestForTokens ids), w =>
    match latestQuery w.base.trades ids with
    | .ok latest => (.ok latest, w)
    | .error error => (.error (.error none error.message), w)
  | .ext (.updateStatsMany rows), w =>
    let (answer, base) := w.base.updateStatsMany join.pick rows
    (answer, { w with base })
  | call, w => answerBatch reads o call w

variable {reads} {deps : CurveProcessorDeps} {s : CurveTables H} {ids : List Address}

theorem batchRows_same {rows : List StatsRow} (h : batchRows reads deps s ids = .ok rows)
    {row row' : StatsRow} (hrow : row ∈ rows) (hrow' : row' ∈ rows)
    (hsame : row.token = row'.token) : row.stats = row'.stats := by
  obtain ⟨token, state, hfound, hstate, hstats⟩ := of_mem_statsRows h hrow
  obtain ⟨token', state', hfound', hstate', hstats'⟩ := of_mem_statsRows h hrow'
  rw [← hsame] at hfound' hstate' hstats'
  obtain rfl := Option.some.inj (hfound.symm.trans hfound')
  have hstates : state = state' := by
    obtain ⟨id, -, heq⟩ := List.mem_map.mp hstate
    obtain ⟨id', -, heq'⟩ := List.mem_map.mp hstate'
    obtain ⟨hid, rfl⟩ := Prod.mk.inj heq
    obtain ⟨hid', rfl⟩ := Prod.mk.inj heq'
    rw [hid, hid']
  subst hstates
  exact Except.ok.inj (hstats.symm.trans hstats')

theorem updateFrom_eq (join : Join) {rows : List StatsRow}
    (h : batchRows reads deps s ids = .ok rows) :
    s.updateFrom (join.pick rows) = s.updateFrom (firstRow rows) := by
  refine congrArg (fun tokens => ({ s with tokens } : CurveTables H)) ?_
  refine List.map_congr_left fun token _ => ?_
  cases hpick : join.pick rows token.address with
  | none =>
    have hnone : firstRow rows token.address = none := by
      simpa [firstRow] using join.pick_none hpick
    rw [hnone]
  | some row =>
    obtain ⟨hrow, htoken⟩ := join.of_pick hpick
    have hsome : (firstRow rows token.address).isSome :=
      List.find?_isSome.mpr ⟨row, hrow, decide_eq_true htoken⟩
    obtain ⟨row', hrow'⟩ := Option.isSome_iff_exists.mp hsome
    have htoken' : row'.token = token.address := by simpa using List.find?_some hrow'
    rw [hrow']
    exact congrArg token.updateStatsMany
      (batchRows_same h hrow (List.mem_of_find?_eq_some hrow') (htoken.trans htoken'.symm))

theorem Join.pick_nil (join : Join) : join.pick [] = fun _ => none := by
  funext id
  cases hpick : join.pick [] id with
  | none => rfl
  | some row => cases (join.of_pick hpick).1

variable (reads) in
theorem refreshTokenStatsBatch_queries (join : Join) (o : Answers CurveReply) {rows : List StatsRow}
    {w : CurveWorld H} (hids : ids ≠ []) (hrows : batchRows reads deps w.base ids = .ok rows) :
    (refreshTokenStatsBatch deps ids).run (answerQueries reads join o) w =
      ((w.base.updateStatsMany join.pick rows).1.map fun _ => (),
        { w with base := (w.base.updateStatsMany join.pick rows).2 }) := by
  have htotals : ∀ since, answerQueries reads join o (.ext (.aggregateForTokens ids since)) w =
      (.ok (w.base.aggregateForTokens ids since), w) := by
    intro since
    rw [← aggregateQuery_eq]
    rfl
  have hlatest : answerQueries reads join o (.ext (.latestForTokens ids)) w =
      (.ok (w.base.latestForTokens ids), w) := by
    simp only [answerQueries, latestQuery_eq]
  exact refreshTokenStatsBatch_answered reads deps hids rfl (htotals none) (htotals _) hlatest
    (fun _ => rfl) hrows rfl

theorem refreshTokenStatsBatch_written (join : Join) (o : Answers CurveReply) {w : CurveWorld H}
    (hs : (w.base.tokens.map TradedToken.address).Nodup) (hids : Writable ids w.base) :
    (refreshTokenStatsBatch deps ids).run (answerQueries reads join o) w =
      (.ok (), { w with base := w.base.refreshed reads deps ids }) := by
  by_cases hnil : ids = []
  · rw [hnil, refreshed_nil]
    rfl
  · obtain ⟨rows, hrows⟩ : ∃ rows, batchRows reads deps w.base ids = .ok rows := statsRows_ok ..
    obtain ⟨n, hwritten⟩ := updateStatsMany_writable hs hrows hids join.pick_nil
    rw [refreshTokenStatsBatch_queries reads join o hnil hrows, hwritten, updateFrom_eq join hrows,
      updateFrom_rows hs hrows]
    rfl

theorem refreshTokenStatsBatch_rejected (join : Join) (o : Answers CurveReply) {w : CurveWorld H}
    (hs : (w.base.tokens.map TradedToken.address).Nodup) (hids : ¬ Writable ids w.base) :
    (refreshTokenStatsBatch deps ids).run (answerQueries reads join o) w =
      (.error mismatchedTypes, w) := by
  have hnil : ids ≠ [] := by
    rintro rfl
    exact hids (.inl fun _ _ => List.not_mem_nil)
  obtain ⟨rows, hrows⟩ : ∃ rows, batchRows reads deps w.base ids = .ok rows := statsRows_ok ..
  rw [refreshTokenStatsBatch_queries reads join o hnil hrows,
    updateStatsMany_mismatched hs hrows hids]
  rfl

theorem refreshedToken_idem (trades : List (CurveTrade H)) (token : TradedToken) :
    refreshedToken reads deps trades (refreshedToken reads deps trades token) =
      refreshedToken reads deps trades token := by
  obtain ⟨stats, hstats⟩ := recomputed_ok reads deps trades token
  have hholders : stats.holderCount = token.stats.holderCount := by
    obtain ⟨marketCap, -, h⟩ := bind_eq_ok.mp hstats
    obtain rfl := Except.ok.inj h
    rfl
  have hagain : recomputed reads deps trades (token.updateStats stats) = .ok stats := by
    rw [← hstats, ← TradedToken.updateStatsMany_eq]
    unfold recomputed statsOf TradedToken.updateStatsMany
    simp only [hholders]
  rw [refreshedToken_eq hstats, refreshedToken_eq hagain]
  simp only [← TradedToken.updateStatsMany_eq, TradedToken.updateStatsMany]
  cases stats.lastTradeAt <;> rfl

theorem refreshedToken_address (trades : List (CurveTrade H)) (token : TradedToken) :
    (refreshedToken reads deps trades token).address = token.address := by
  obtain ⟨stats, hstats⟩ := recomputed_ok reads deps trades token
  rw [refreshedToken_eq hstats, ← TradedToken.updateStatsMany_eq]
  rfl

theorem refreshed_addresses (ids : List Address) (s : CurveTables H) :
    (s.refreshed reads deps ids).tokens.map TradedToken.address =
      s.tokens.map TradedToken.address := by
  unfold CurveTables.refreshed
  rw [List.map_map]
  refine List.map_congr_left fun token _ => ?_
  simp only [Function.comp_apply]
  split
  · exact refreshedToken_address ..
  · rfl

theorem refreshed_cons (id : Address) (ids : List Address) (s : CurveTables H) :
    (s.refreshed reads deps [id]).refreshed reads deps ids = s.refreshed reads deps (id :: ids) := by
  refine congrArg (fun tokens => ({ s with tokens } : CurveTables H)) ?_
  refine List.map_map.trans (List.map_congr_left fun token _ => ?_)
  simp only [Function.comp_apply, List.mem_cons, List.not_mem_nil, or_false]
  by_cases hid : token.address = id
  · rw [if_pos hid, refreshedToken_address, if_pos (Or.inl hid)]
    split
    · exact refreshedToken_idem ..
    · rfl
  · rw [if_neg hid]
    simp only [hid, false_or]
    rfl

theorem refreshInTurn_run (ids : List Address) (hs : (s.tokens.map TradedToken.address).Nodup) :
    (refreshInTurn deps ids).run (answerToken reads) s = (.ok (), s.refreshed reads deps ids) := by
  induction ids generalizing s with
  | nil =>
    rw [refreshed_nil]
    rfl
  | cons id ids ih =>
    refine (Async.run_bind_ok (refreshTokenStats_exact reads deps id hs)).trans ?_
    rw [ih (by rw [refreshed_addresses]; exact hs), refreshed_cons]

variable (reads deps)

end batch

section sample

def youngToken : TradedToken where
  address := 3
  curveAddress := 4
  totalSupply := 1000
  phase := .notGraduated
  stats := {
    realQuoteReserve := 0, graduationBps := 0, price := 0, marketCap := 0, volume24h := 0
    volumeTotal := 0, holderCount := 0, tradeCount := 0, buyCount := 0, sellCount := 0
    lastTradeAt := none }

def youngState : CurveState where
  curve := 4
  pairToken := 0
  pricingQuoteReserve := 17
  realQuoteReserve := 7
  tokenReserve := 900
  phantomQuote := 10
  reservedTokens := 200
  graduationThreshold := 40
  feeBps := 100
  creatorTaxBps := 0
  graduated := false
  readyToGraduate := false
  launchedAt := 0
  snipeTaxStartBps := 0
  snipeTaxSeconds := 0

def youngAnswers : Answers CurveReply where
  fault := none
  head := 0
  reached := 0
  ext := {
    blockTime := fun _ => 0
    curveState := youngState
    launched := {
      creatorFeeRecipient := 2, graduationThreshold := 40, poolFee := 1, tickSpacing := 1
      creatorTaxBps := 0, buybackEnabled := false, phase := 0, exists_ := true } }

def readYoung (curve : Address) : Except Failure CurveState :=
  if curve = 4 then .ok youngState else unreadable curve

def mixedWorld : CurveWorld Nat where
  tables := .empty
  base := { tokens := [graduatedToken, youngToken], trades := [graduatedTrade] }

def youngWorld : CurveWorld Nat where
  tables := .empty
  base := { tokens := [youngToken], trades := [] }

end sample

end Stunks.Indexer
