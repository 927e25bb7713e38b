import Mathlib.Data.List.Sort
import Stunks.Indexer.StatsQueries

/-! `recompute-prices.ts`: stored prices restated at the current scale, a chunk of trades at a time.
The indexer is stopped meanwhile. -/

namespace Stunks.Scripts.RecomputePrices

open Indexer

variable {H : Type}

def scaleSql : Int := 1000000000000000000000000000

def verifySample : Nat := 5000

def chunk : Nat := 20000

def fits (value : Int) : Bool := value.natAbs < 10 ^ 78

/-- `PRICE_SQL` -/
def priceSql (trade : CurveTrade H) : Int :=
  if trade.tokenAmount > 0 ∧ trade.quoteAmount > 0 then
    (trade.quoteAmount * scaleSql).tdiv trade.tokenAmount
  else 0

def isWrong (trade : CurveTrade H) : Bool := trade.price ≠ priceSql trade

def restateTrade (trade : CurveTrade H) : CurveTrade H := { trade with price := priceSql trade }

/-- `BigInt(text.split(".")[0] ?? "0")` -/
def readAmount (text : List Char) : Except JsError Int :=
  bigIntOfText ((text.splitOn '.').getD 0 ['0'])

def agrees (trade : CurveTrade H) : Except JsError Bool := do
  let quoteAmount ← readAmount (numericText trade.quoteAmount)
  let tokenAmount ← readAmount (numericText trade.tokenAmount)
  let expected ← priceFromTrade quoteAmount tokenAmount
  let price ← readAmount (numericText (priceSql trade))
  return decide (price = expected)

def verifyAgainstTypeScript (id : CurveTrade H → Nat) (trades : List (CurveTrade H)) :
    Except JsError Bool := do
  let checks ← ((trades.insertionSort fun a b => id a ≤ id b).take verifySample).mapM agrees
  return checks.all fun agreed => agreed

/-- What `LIMIT` leaves of the wrong rows, in the order in which the database comes across them. -/
def picked (scan : CurveTrade H → Nat) (trades : List (CurveTrade H)) : List (Hex × Nat) :=
  (((trades.insertionSort fun a b => scan a ≤ scan b).filter isWrong).take chunk).map CurveTrade.key

def rewrite (ids : List (Hex × Nat)) (trade : CurveTrade H) : CurveTrade H :=
  if trade.key ∈ ids then restateTrade trade else trade

def written (scan : CurveTrade H → Nat) (s : CurveTables H) : List (CurveTrade H) :=
  s.trades.filter fun trade => trade.key ∈ picked scan s.trades

/-- One `UPDATE` of trades; `none` where a price does not fit its column. -/
def updateTrades (scan : CurveTrade H → Nat) (s : CurveTables H) : Option (CurveTables H) :=
  if (written scan s).all fun trade => fits (priceSql trade) then
    some { s with trades := s.trades.map (rewrite (picked scan s.trades)) }
  else none

def restateToken (trades : List (CurveTrade H)) (token : TradedToken) : TradedToken :=
  match latestTrade (tradesOf token.address trades) with
  | some latest =>
    { token with stats := { token.stats with
        price := latest.price
        marketCap := (latest.price * token.totalSupply).tdiv scaleSql } }
  | none => token

def tokenIsWrong (trades : List (CurveTrade H)) (token : TradedToken) : Bool :=
  restateToken trades token ≠ token

def updateTokens (s : CurveTables H) : Option (CurveTables H) :=
  if (s.tokens.filter (tokenIsWrong s.trades)).all fun token =>
      fits (restateToken s.trades token).stats.marketCap then
    some { s with tokens := s.tokens.map fun token =>
      if tokenIsWrong s.trades token then restateToken s.trades token else token }
  else none

inductive Stop
  | rejected
  | vacuumFailed
  deriving DecidableEq

inductive Outcome
  | disagreed
  | dryRun
  | stopped (stop : Stop)
  | done (tradesWritten tokensWritten : Nat)
  deriving DecidableEq

structure Attempt (H : Type) where
  apply : Bool
  id : CurveTrade H → Nat
  scan : Nat → CurveTrade H → Nat
  /-- Where the connection drops, and whether the statement is applied nevertheless. -/
  dropped : Nat → Option Bool
  vacuum : Nat → Bool
  tokensDropped : Option Bool

section decrease

variable {scan : CurveTrade H → Nat} {s t : CurveTables H}

theorem isWrong_restateTrade (trade : CurveTrade H) : isWrong (restateTrade trade) = false :=
  decide_eq_false (by simp [restateTrade, priceSql])

theorem countP_rewrite (ids : List (Hex × Nat)) (trades : List (CurveTrade H)) :
    (trades.map (rewrite ids)).countP isWrong =
      ((trades.filter isWrong).filter fun trade => trade.key ∉ ids).length := by
  rw [List.countP_map, List.countP_eq_length_filter, List.filter_filter]
  refine congrArg List.length (List.filter_congr fun trade _ => ?_)
  simp only [Function.comp_apply, rewrite]
  split
  · rename_i hmem
    simp [isWrong_restateTrade, hmem]
  · rename_i hmem
    simp [hmem]

theorem mem_picked {key : Hex × Nat} (h : key ∈ picked scan s.trades) :
    ∃ trade ∈ s.trades, isWrong trade = true ∧ trade.key = key := by
  obtain ⟨trade, htrade, rfl⟩ := List.mem_map.mp h
  obtain ⟨hmem, hwrong⟩ := List.mem_filter.mp (List.mem_of_mem_take htrade)
  exact ⟨trade, (List.mem_insertionSort _).mp hmem, hwrong, rfl⟩

theorem countP_lt_of_written (h : updateTrades scan s = some t) (hwritten : written scan s ≠ []) :
    t.trades.countP isWrong < s.trades.countP isWrong := by
  unfold updateTrades at h
  split at h
  · cases h
    obtain ⟨row, hrow⟩ := List.exists_mem_of_ne_nil _ hwritten
    have hkey := of_decide_eq_true (List.mem_filter.mp hrow).2
    obtain ⟨trade, htrade, hwrong, hid⟩ := mem_picked hkey
    rw [countP_rewrite, List.countP_eq_length_filter]
    refine List.length_filter_lt_length_iff_exists.mpr
      ⟨trade, List.mem_filter.mpr ⟨htrade, hwrong⟩, ?_⟩
    rw [hid]
    simpa using hkey
  · cases h

end decrease

def rewriteTrades (run : Attempt H) (n : Nat) (s : CurveTables H) :
    Except Stop Nat × CurveTables H :=
  match _ : updateTrades (run.scan n) s with
  | none => (.error .rejected, s)
  | some t =>
    match run.dropped n with
    | some applied => (.error .rejected, if applied then t else s)
    | none =>
      if _ : written (run.scan n) s = [] then (.ok 0, t)
      else if run.vacuum n then
        let (total, u) := rewriteTrades run (n + 1) t
        (total.map ((written (run.scan n) s).length + ·), u)
      else (.error .vacuumFailed, t)
termination_by s.trades.countP isWrong
decreasing_by exact countP_lt_of_written ‹_› ‹_›

def restateTokens (run : Attempt H) (tradesWritten : Nat) (s : CurveTables H) :
    Outcome × CurveTables H :=
  match updateTokens s with
  | none => (.stopped .rejected, s)
  | some t =>
    match run.tokensDropped with
    | some applied => (.stopped .rejected, if applied then t else s)
    | none =>
      match verifyAgainstTypeScript run.id t.trades with
      | .ok true => (.done tradesWritten (s.tokens.countP (tokenIsWrong s.trades)), t)
      | .ok false => (.disagreed, t)
      | .error _ => (.stopped .rejected, t)

def main (run : Attempt H) (s : CurveTables H) : Outcome × CurveTables H :=
  match verifyAgainstTypeScript run.id s.trades with
  | .error _ => (.stopped .rejected, s)
  | .ok false => (.disagreed, s)
  | .ok true =>
    if !run.apply then (.dryRun, s)
    else
      match rewriteTrades run 0 s with
      | (.error stop, t) => (.stopped stop, t)
      | (.ok tradesWritten, t) => restateTokens run tradesWritten t

def restated (s : CurveTables H) : CurveTables H where
  trades := s.trades.map restateTrade
  tokens := s.tokens.map (restateToken (s.trades.map restateTrade))

section prices

variable {scan : CurveTrade H → Nat} {s t : CurveTables H} {trades : List (CurveTrade H)}
  {ids : List (Hex × Nat)}

theorem readAmount_numericText (value : Int) : readAmount (numericText value) = .ok value := by
  have hpoint : '.' ∉ numericText value := by
    unfold numericText
    intro h
    rcases List.mem_append.mp h with hsign | hdigit
    · split at hsign <;> simp at hsign
    · cases Decimal.isDigit_toDigits _ _ hdigit
  unfold readAmount
  rw [List.splitOn_eq_singleton hpoint]
  exact bigIntOfText_numericText value

theorem priceFromTrade_eq (trade : CurveTrade H) :
    priceFromTrade trade.quoteAmount trade.tokenAmount = .ok (priceSql trade) := by
  unfold priceSql
  split
  · rename_i hpos
    have hprod : 0 ≤ trade.quoteAmount * priceScale := mul_nonneg hpos.2.le (by decide)
    rw [priceFromTrade_of_pos hpos.2 hpos.1, show scaleSql = priceScale from rfl,
      Int.tdiv_eq_ediv_of_nonneg hprod]
  · rename_i hpos
    unfold priceFromTrade
    split
    · rfl
    · rw [if_pos (by omega)]

theorem agrees_eq (trade : CurveTrade H) : agrees trade = .ok true := by
  have hagrees : agrees trade = (do
      let expected ← priceFromTrade trade.quoteAmount trade.tokenAmount
      return decide (priceSql trade = expected)) := by
    simp only [agrees, readAmount_numericText]
    rfl
  rw [hagrees, priceFromTrade_eq]
  exact congrArg Except.ok (decide_eq_true rfl)

theorem verifyAgainstTypeScript_eq (id : CurveTrade H → Nat) (trades : List (CurveTrade H)) :
    verifyAgainstTypeScript id trades = .ok true := by
  have hmap (rows : List (CurveTrade H)) :
      rows.mapM agrees = Except.ok (rows.map fun _ => true) := by
    induction rows with
    | nil => rfl
    | cons trade rows ih =>
      rw [List.mapM_cons, agrees_eq, ih]
      rfl
  unfold verifyAgainstTypeScript
  rw [hmap]
  refine congrArg Except.ok (List.all_eq_true.mpr fun agreed hagreed => ?_)
  obtain ⟨-, -, rfl⟩ := List.mem_map.mp hagreed
  rfl

theorem restateTrade_rewrite (ids : List (Hex × Nat)) (trade : CurveTrade H) :
    restateTrade (rewrite ids trade) = restateTrade trade := by
  unfold rewrite
  split <;> rfl

theorem restateTrade_eq_self {trade : CurveTrade H} (h : isWrong trade = false) :
    restateTrade trade = trade := by
  have hprice : trade.price = priceSql trade := of_not_not (of_decide_eq_false h)
  unfold restateTrade
  rw [← hprice]

theorem map_restateTrade (h : trades.countP isWrong = 0) : trades.map restateTrade = trades := by
  refine (List.map_congr_left fun trade htrade => ?_).trans (List.map_id trades)
  exact restateTrade_eq_self (Bool.eq_false_of_not_eq_true (List.countP_eq_zero.mp h trade htrade))

theorem restateToken_idem (token : TradedToken) :
    restateToken trades (restateToken trades token) = restateToken trades token := by
  cases hlatest : latestTrade (tradesOf token.address trades) with
  | none => simp only [restateToken, hlatest]
  | some latest => simp only [restateToken, hlatest]

theorem restated_updateTrades (h : updateTrades scan s = some t) : restated t = restated s := by
  unfold updateTrades at h
  split at h
  · cases h
    have htrades : (s.trades.map (rewrite (picked scan s.trades))).map restateTrade =
        s.trades.map restateTrade := by
      rw [List.map_map]
      exact List.map_congr_left fun trade _ => restateTrade_rewrite _ trade
    simp only [restated, htrades]
  · cases h

theorem updateTokens_eq (h : updateTokens s = some t) :
    t = { s with tokens := s.tokens.map (restateToken s.trades) } := by
  unfold updateTokens at h
  split at h
  · cases h
    refine congrArg (CurveTables.mk · s.trades) (List.map_congr_left fun token _ => ?_)
    split
    · rfl
    · rename_i hright
      exact (of_not_not (of_decide_eq_false (Bool.eq_false_of_not_eq_true hright))).symm
  · cases h

theorem restated_updateTokens (htrades : s.trades.map restateTrade = s.trades)
    (h : updateTokens s = some t) : t = restated s ∧ restated t = restated s := by
  rw [updateTokens_eq h]
  have hend : { s with tokens := s.tokens.map (restateToken s.trades) } = restated s := by
    simp only [restated, htrades]
  refine ⟨hend, ?_⟩
  simp only [restated, htrades, List.map_map, Function.comp_def, restateToken_idem]

end prices

section rewriting

variable {run : Attempt H} {n : Nat} {s t : CurveTables H} {scan : CurveTrade H → Nat}

theorem picked_eq_nil (h : written scan s = []) : s.trades.countP isWrong = 0 := by
  have hnone : picked scan s.trades = [] := by
    by_contra hne
    obtain ⟨key, hkey⟩ := List.exists_mem_of_ne_nil _ hne
    obtain ⟨trade, htrade, -, rfl⟩ := mem_picked hkey
    have hmem : trade ∈ written scan s := List.mem_filter.mpr ⟨htrade, decide_eq_true hkey⟩
    rw [h] at hmem
    cases hmem
  have hwrong : (s.trades.insertionSort fun a b => scan a ≤ scan b).filter isWrong = [] := by
    simpa [picked, chunk] using hnone
  rw [List.countP_eq_zero]
  intro trade htrade hwrongTrade
  have hmem := List.mem_filter.mpr ⟨(List.mem_insertionSort fun a b => scan a ≤ scan b).mpr htrade,
    hwrongTrade⟩
  rw [hwrong] at hmem
  cases hmem

theorem length_written (hkeys : (s.trades.map CurveTrade.key).Nodup)
    (h : updateTrades scan s = some t) :
    (written scan s).length + t.trades.countP isWrong = s.trades.countP isWrong := by
  have hwritten : written scan s =
      (s.trades.filter isWrong).filter fun trade => trade.key ∈ picked scan s.trades := by
    rw [written, List.filter_filter]
    refine List.filter_congr fun trade htrade => ?_
    cases hpicked : decide (trade.key ∈ picked scan s.trades) with
    | false => rfl
    | true =>
      obtain ⟨other, hother, hwrong, hkey⟩ := mem_picked (of_decide_eq_true hpicked)
      rw [List.inj_on_of_nodup_map hkeys htrade hother hkey.symm, hwrong]
      rfl
  have hafter : t.trades.countP isWrong =
      ((s.trades.filter isWrong).filter fun trade =>
        !decide (trade.key ∈ picked scan s.trades)).length := by
    unfold updateTrades at h
    split at h
    · cases h
      simpa using countP_rewrite (picked scan s.trades) s.trades
    · cases h
  rw [hwritten, hafter, List.countP_eq_length_filter, ← List.length_append]
  exact (List.filter_append_perm _ _).length_eq

theorem length_written_eq (hkeys : (s.trades.map CurveTrade.key).Nodup) :
    (written scan s).length = min chunk (s.trades.countP isWrong) := by
  have hsorted := List.perm_insertionSort (fun a b => scan a ≤ scan b) s.trades
  have hsub : ((written scan s).map CurveTrade.key).Sublist (s.trades.map CurveTrade.key) :=
    List.filter_sublist.map _
  have hpicked : (picked scan s.trades).Nodup := by
    refine ((hsorted.map CurveTrade.key).nodup_iff.mpr hkeys).sublist ?_
    exact ((List.take_sublist _ _).trans List.filter_sublist).map _
  have hperm : ((written scan s).map CurveTrade.key).Perm (picked scan s.trades) := by
    refine (List.perm_ext_iff_of_nodup (hkeys.sublist hsub) hpicked).mpr fun key => ?_
    constructor
    · intro h
      obtain ⟨trade, htrade, rfl⟩ := List.mem_map.mp h
      exact of_decide_eq_true (List.mem_filter.mp htrade).2
    · intro h
      obtain ⟨trade, htrade, -, rfl⟩ := mem_picked h
      exact List.mem_map_of_mem (List.mem_filter.mpr ⟨htrade, decide_eq_true h⟩)
  have hlength := hperm.length_eq
  rw [List.length_map] at hlength
  rw [hlength, picked, List.length_map, List.length_take, ← List.countP_eq_length_filter,
    hsorted.countP_eq]

theorem keys_updateTrades (h : updateTrades scan s = some t) :
    t.trades.map CurveTrade.key = s.trades.map CurveTrade.key ∧ t.tokens = s.tokens := by
  unfold updateTrades at h
  split at h
  · cases h
    refine ⟨?_, rfl⟩
    rw [List.map_map]
    refine List.map_congr_left fun trade _ => ?_
    show (rewrite _ trade).key = trade.key
    unfold rewrite
    split <;> rfl
  · cases h

/-- Wherever the loop stops, it has changed nothing about where a run ends; and where it comes to
its end, no row is wrong and each that was has been written once. -/
theorem rewriteTrades_restated (hkeys : (s.trades.map CurveTrade.key).Nodup) :
    restated (rewriteTrades run n s).2 = restated s ∧
      (rewriteTrades run n s).2.trades.map CurveTrade.key = s.trades.map CurveTrade.key ∧
      ∀ total, (rewriteTrades run n s).1 = .ok total →
        (rewriteTrades run n s).2.trades.countP isWrong = 0 ∧
          total = s.trades.countP isWrong := by
  fun_induction rewriteTrades run n s with
  | case1 n s h => exact ⟨rfl, rfl, fun _ h => by cases h⟩
  | case2 n s t h applied hdropped =>
    refine ⟨?_, ?_, fun _ h => by cases h⟩
    · split
      · exact restated_updateTrades h
      · rfl
    · split
      · exact (keys_updateTrades h).1
      · rfl
  | case3 n s t h hdropped hwritten =>
    refine ⟨restated_updateTrades h, (keys_updateTrades h).1, fun total htotal => ?_⟩
    have hnone := picked_eq_nil hwritten
    have hlength := length_written hkeys h
    rw [hwritten, List.length_nil, Nat.zero_add, hnone] at hlength
    exact ⟨hlength, by rw [hnone]; exact (Except.ok.inj htotal).symm⟩
  | case4 n s t h hdropped hwritten hvacuum rest u hrest ih =>
    obtain ⟨hkeep, -⟩ := keys_updateTrades h
    obtain ⟨hto, hafter, hend⟩ := ih (hkeep ▸ hkeys)
    rw [hrest] at hto hafter hend
    refine ⟨hto.trans (restated_updateTrades h), hafter.trans hkeep, fun total htotal => ?_⟩
    cases rest with
    | error _ => cases htotal
    | ok more =>
      obtain ⟨hright, hmore⟩ := hend more rfl
      refine ⟨hright, ?_⟩
      rw [← Except.ok.inj htotal, hmore]
      exact length_written hkeys h
  | case5 n s t h hdropped hwritten hvacuum =>
    exact ⟨restated_updateTrades h, (keys_updateTrades h).1, fun _ h => by cases h⟩

theorem rewriteTrades_tokens : (rewriteTrades run n s).2.tokens = s.tokens := by
  fun_induction rewriteTrades run n s with
  | case1 => rfl
  | case2 n s t h applied hdropped =>
    split
    · exact (keys_updateTrades h).2
    · rfl
  | case3 n s t h => exact (keys_updateTrades h).2
  | case4 n s t h hdropped hwritten hvacuum rest u hrest ih =>
    rw [hrest] at ih
    exact ih.trans (keys_updateTrades h).2
  | case5 n s t h => exact (keys_updateTrades h).2

def PricesFit (s : CurveTables H) : Prop :=
  ∀ trade ∈ s.trades, isWrong trade = true → fits (priceSql trade) = true

theorem pricesFit_of_rewritten {total : Nat} (h : (rewriteTrades run n s).1 = .ok total) :
    PricesFit s := by
  fun_induction rewriteTrades run n s generalizing total with
  | case1 => cases h
  | case2 => cases h
  | case3 n s t hupdate hdropped hwritten =>
    intro trade htrade hwrong
    exact absurd hwrong (List.countP_eq_zero.mp (picked_eq_nil hwritten) trade htrade)
  | case4 n s t hupdate hdropped hwritten hvacuum rest u hrest ih =>
    rw [hrest] at ih
    cases rest with
    | error _ => cases h
    | ok more =>
      have hfit := ih rfl
      intro trade htrade hwrong
      unfold updateTrades at hupdate
      split at hupdate
      · rename_i hall
        cases hupdate
        by_cases hpicked : trade.key ∈ picked (run.scan n) s.trades
        · exact List.all_eq_true.mp hall trade
            (List.mem_filter.mpr ⟨htrade, decide_eq_true hpicked⟩)
        · have hsame : rewrite (picked (run.scan n) s.trades) trade = trade := if_neg hpicked
          exact hfit trade (List.mem_map.mpr ⟨trade, htrade, hsame⟩) hwrong
      · cases hupdate
  | case5 => cases h

theorem updateTrades_some (hkeys : (s.trades.map CurveTrade.key).Nodup) (hfit : PricesFit s) :
    ∃ t, updateTrades scan s = some t := by
  refine ⟨_, if_pos (List.all_eq_true.mpr fun trade htrade => ?_)⟩
  obtain ⟨hmem, hpicked⟩ := List.mem_filter.mp htrade
  obtain ⟨other, hother, hwrong, hkey⟩ := mem_picked (of_decide_eq_true hpicked)
  rw [List.inj_on_of_nodup_map hkeys hother hmem hkey] at hwrong
  exact hfit trade hmem hwrong

theorem PricesFit.updateTrades (hfit : PricesFit s) (h : updateTrades scan s = some t) :
    PricesFit t := by
  unfold RecomputePrices.updateTrades at h
  split at h
  · cases h
    intro trade' htrade' hwrong
    obtain ⟨trade, htrade, rfl⟩ := List.mem_map.mp htrade'
    unfold rewrite at hwrong ⊢
    split
    · rename_i hmem
      rw [if_pos hmem, isWrong_restateTrade] at hwrong
      cases hwrong
    · rename_i hmem
      rw [if_neg hmem] at hwrong
      exact hfit trade htrade hwrong
  · cases h

theorem rewritten_of_pricesFit (hkeys : (s.trades.map CurveTrade.key).Nodup) (hfit : PricesFit s)
    (hdropped : ∀ n, run.dropped n = none) (hvacuum : ∀ n, run.vacuum n = true) :
    ∃ total, (rewriteTrades run n s).1 = .ok total := by
  fun_induction rewriteTrades run n s with
  | case1 n s h =>
    obtain ⟨t, ht⟩ := @updateTrades_some _ _ (run.scan n) hkeys hfit
    cases h.symm.trans ht
  | case2 n s t h applied hdrop => cases (hdropped n).symm.trans hdrop
  | case3 => exact ⟨0, rfl⟩
  | case4 n s t h hdrop hwritten hvac rest u hrest ih =>
    obtain ⟨total, htotal⟩ := ih ((keys_updateTrades h).1 ▸ hkeys) (hfit.updateTrades h)
    rw [hrest] at htotal
    exact ⟨_, congrArg (Except.map _) htotal⟩
  | case5 n s t h hdrop hwritten hvac => exact absurd (hvacuum n) hvac

theorem rewriteTrades_dropped {u : CurveTables H} (h : updateTrades (run.scan n) s = some t)
    (hdropped : run.dropped n = none) (hwritten : written (run.scan n) s ≠ [])
    (hvacuum : run.vacuum n = true) (h' : updateTrades (run.scan (n + 1)) t = some u)
    (hdropped' : run.dropped (n + 1) = some false) :
    rewriteTrades run n s = (.error .rejected, t) := by
  have hsecond : rewriteTrades run (n + 1) t = (.error .rejected, t) := by
    unfold rewriteTrades
    split
    · rename_i hnone
      cases h'.symm.trans hnone
    · rw [hdropped']
      rfl
  unfold rewriteTrades
  split
  · rename_i hnone
    cases h.symm.trans hnone
  · rename_i t' hsome
    obtain rfl := Option.some.inj (h.symm.trans hsome)
    simp only [hdropped, dif_neg hwritten, hvacuum, hsecond]
    rfl

end rewriting

section runs

variable {run : Attempt H} {s t : CurveTables H}

structure Fits (s : CurveTables H) : Prop where
  prices : PricesFit s
  caps : ∀ token ∈ s.tokens, tokenIsWrong (s.trades.map restateTrade) token = true →
    fits (restateToken (s.trades.map restateTrade) token).stats.marketCap = true

theorem restateTokens_restated {total : Nat} (hright : s.trades.countP isWrong = 0) :
    restated (restateTokens run total s).2 = restated s ∧
      (restateTokens run total s).2.trades = s.trades ∧
      ∀ n m, (restateTokens run total s).1 = .done n m →
        (restateTokens run total s).2 = restated s ∧ n = total ∧
          m = s.tokens.countP (tokenIsWrong s.trades) := by
  have htrades := map_restateTrade hright
  unfold restateTokens
  cases hupdate : updateTokens s with
  | none => exact ⟨rfl, rfl, fun _ _ h => by cases h⟩
  | some t =>
    obtain ⟨hend, hsame⟩ := restated_updateTokens htrades hupdate
    have hkeep : t.trades = s.trades := by rw [updateTokens_eq hupdate]
    dsimp only
    cases run.tokensDropped with
    | some applied =>
      refine ⟨?_, ?_, fun _ _ h => by cases h⟩
      · dsimp only
        split
        · exact hsame
        · rfl
      · dsimp only
        split
        · exact hkeep
        · rfl
    | none =>
      dsimp only
      rw [verifyAgainstTypeScript_eq]
      refine ⟨hsame, hkeep, fun n m h => ?_⟩
      obtain ⟨rfl, rfl⟩ := Outcome.done.inj h
      exact ⟨hend, rfl, rfl⟩

theorem main_eq (run : Attempt H) (s : CurveTables H) : main run s =
    if !run.apply then (.dryRun, s)
    else
      match rewriteTrades run 0 s with
      | (.error stop, t) => (.stopped stop, t)
      | (.ok tradesWritten, t) => restateTokens run tradesWritten t := by
  unfold main
  rw [verifyAgainstTypeScript_eq]

theorem main_restated (hkeys : (s.trades.map CurveTrade.key).Nodup) :
    restated (main run s).2 = restated s ∧
      (main run s).2.trades.map CurveTrade.key = s.trades.map CurveTrade.key ∧
      ∀ n m, (main run s).1 = .done n m →
        (main run s).2 = restated s ∧ n = s.trades.countP isWrong ∧
          m = s.tokens.countP (tokenIsWrong (restated s).trades) := by
  rw [main_eq]
  split
  · exact ⟨rfl, rfl, fun _ _ h => by cases h⟩
  · obtain ⟨hto, hkept, hend⟩ := @rewriteTrades_restated _ run 0 s hkeys
    have htokens := @rewriteTrades_tokens _ run 0 s
    cases hrewrite : rewriteTrades run 0 s with
    | mk result t =>
      rw [hrewrite] at hto hkept hend htokens
      cases result with
      | error stop => exact ⟨hto, hkept, fun n m h => by cases h⟩
      | ok total =>
        obtain ⟨hright, htotal⟩ := hend total rfl
        obtain ⟨hsame, htrades, hdone⟩ := @restateTokens_restated _ run t total hright
        refine ⟨hsame.trans hto, (congrArg _ htrades).trans hkept, fun n m h => ?_⟩
        obtain ⟨hlast, rfl, hcount⟩ := hdone n m h
        have hrewritten : t.trades = (restated s).trades :=
          (map_restateTrade hright).symm.trans (congrArg CurveTables.trades hto)
        rw [htokens, hrewritten] at hcount
        exact ⟨hlast.trans hto, htotal, hcount⟩

theorem main_done_iff (hkeys : (s.trades.map CurveTrade.key).Nodup) (happly : run.apply = true)
    (hdropped : ∀ n, run.dropped n = none) (hvacuum : ∀ n, run.vacuum n = true)
    (htokens : run.tokensDropped = none) :
    (∃ n m, (main run s).1 = .done n m) ↔ Fits s := by
  have hkept := @rewriteTrades_tokens _ run 0 s
  obtain ⟨hto, -, hend⟩ := @rewriteTrades_restated _ run 0 s hkeys
  have htrades (hright : (rewriteTrades run 0 s).2.trades.countP isWrong = 0) :
      (rewriteTrades run 0 s).2.trades = s.trades.map restateTrade :=
    (map_restateTrade hright).symm.trans (congrArg CurveTables.trades hto)
  rw [main_eq, if_neg (by simp [happly])]
  cases hrewrite : rewriteTrades run 0 s with
  | mk result t =>
    rw [hrewrite] at hkept hend htrades
    cases result with
    | error stop =>
      refine ⟨fun ⟨n, m, h⟩ => (by cases h), fun hfits => ?_⟩
      obtain ⟨total, htotal⟩ := @rewritten_of_pricesFit _ run 0 s hkeys hfits.prices hdropped hvacuum
      rw [hrewrite] at htotal
      cases htotal
    | ok total =>
      have hright := htrades (hend total rfl).1
      have hprices : PricesFit s := @pricesFit_of_rewritten _ run 0 s total (by rw [hrewrite])
      have hcaps : (∃ u, updateTokens t = some u) ↔ Fits s := by
        unfold updateTokens
        rw [hkept, hright]
        constructor
        · rintro ⟨u, hu⟩
          split at hu
          · rename_i hall
            exact ⟨hprices, fun token htoken hwrong =>
              List.all_eq_true.mp hall token (List.mem_filter.mpr ⟨htoken, hwrong⟩)⟩
          · cases hu
        · intro hfits
          refine ⟨_, if_pos (List.all_eq_true.mpr fun token htoken => ?_)⟩
          obtain ⟨hmem, hwrong⟩ := List.mem_filter.mp htoken
          exact hfits.caps token hmem hwrong
      rw [← hcaps]
      dsimp only [restateTokens]
      cases updateTokens t with
      | none => exact ⟨fun ⟨n, m, h⟩ => (by cases h), fun ⟨u, hu⟩ => (by cases hu)⟩
      | some u =>
        dsimp only
        rw [htokens, verifyAgainstTypeScript_eq]
        exact ⟨fun _ => ⟨u, rfl⟩, fun _ => ⟨_, _, rfl⟩⟩

structure Restated (s t : CurveTables H) : Prop where
  trades : List.Forall₂ (fun (old new : CurveTrade H) => new = { old with price := new.price } ∧
    priceFromTrade old.quoteAmount old.tokenAmount = .ok new.price) s.trades t.trades
  tokens : List.Forall₂ (fun (old new : TradedToken) =>
    match t.latestForTokens [old.address] old.address with
    | some latest => ∃ marketCap,
        new = { old with stats := { old.stats with price := latest.price, marketCap } } ∧
          (0 ≤ old.totalSupply →
            marketCapFromPrice latest.price old.totalSupply = .ok marketCap)
    | none => new = old) s.tokens t.tokens

theorem priceSql_nonneg (trade : CurveTrade H) : 0 ≤ priceSql trade := by
  unfold priceSql
  split
  · rename_i hpos
    exact Int.tdiv_nonneg (mul_nonneg hpos.2.le (by decide)) hpos.1.le
  · exact le_rfl

theorem marketCapFromPrice_eq {price supply : Int} (hprice : 0 ≤ price) (hsupply : 0 ≤ supply) :
    marketCapFromPrice price supply = .ok ((price * supply).tdiv scaleSql) := by
  rcases hsupply.eq_or_lt with rfl | hpos
  · rw [marketCapFromPrice, if_pos (.inr le_rfl), mul_zero, Int.zero_tdiv]
  · rw [marketCapFromPrice_of_nonneg hprice hpos, show scaleSql = priceScale from rfl,
      Int.tdiv_eq_ediv_of_nonneg (mul_nonneg hprice hsupply)]

theorem restated_spec (s : CurveTables H) : Restated s (restated s) where
  trades := by
    refine List.forall₂_map_right_iff.mpr (List.forall₂_same.mpr fun trade _ => ?_)
    exact ⟨rfl, priceFromTrade_eq trade⟩
  tokens := by
    refine List.forall₂_map_right_iff.mpr (List.forall₂_same.mpr fun token _ => ?_)
    have hlatest : (restated s).latestForTokens [token.address] token.address =
        (latestTrade (tradesOf token.address (s.trades.map restateTrade))).map fun trade =>
          { price := trade.price, timestamp := trade.timestamp } := if_pos List.mem_cons_self
    rw [hlatest]
    unfold restateToken
    cases htrade : latestTrade (tradesOf token.address (s.trades.map restateTrade)) with
    | none => rfl
    | some latest =>
      refine ⟨_, rfl, fun hsupply => ?_⟩
      have hmem : latest ∈ tradesOf token.address (s.trades.map restateTrade) :=
        List.argmax_mem htrade
      obtain ⟨trade, -, rfl⟩ := List.mem_map.mp (List.mem_filter.mp hmem).1
      exact marketCapFromPrice_eq (priceSql_nonneg trade) hsupply

theorem Fits.updateTrades {scan : CurveTrade H → Nat} (h : Fits s)
    (hupdate : updateTrades scan s = some t) : Fits t where
  prices := h.prices.updateTrades hupdate
  caps := by
    have htrades : t.trades.map restateTrade = s.trades.map restateTrade :=
      congrArg CurveTables.trades (restated_updateTrades hupdate)
    rw [htrades, (keys_updateTrades hupdate).2]
    exact h.caps

def soldAt (logIndex : Nat) : CurveTrade Nat where
  transactionHash := 1
  logIndex
  blockNumber := 5
  blockHash := 5
  token := 7
  curveAddress := 8
  venue := .curve
  traderAddress := 9
  recipientAddress := 9
  side := .sell
  tokenAmount := 540440857263784622848790
  quoteAmount := 2823
  feeAmount := 0
  creatorTaxAmount := 0
  snipeTaxAmount := 0
  refundAmount := 0
  price := 0
  marketCap := 0
  timestamp := 1
  excludedFromCompetition := false
  exclusionReason := none

def soldToken : TradedToken where
  address := 7
  curveAddress := 8
  totalSupply := scaleSql
  phase := .notGraduated
  stats := {
    realQuoteReserve := 0, graduationBps := 0, price := 0, marketCap := 0, volume24h := 0
    volumeTotal := 0, holderCount := 0, tradeCount := 20001, buyCount := 0, sellCount := 20001
    lastTradeAt := some 1 }

def oldScale (count : Nat) : CurveTables Nat where
  tokens := [soldToken]
  trades := (List.range count).map soldAt

def undisturbed : Attempt Nat where
  apply := true
  id _ := 0
  scan _ _ := 0
  dropped _ := none
  vacuum _ := true
  tokensDropped := none

def interrupted : Attempt Nat :=
  { undisturbed with dropped := fun n => if n = 1 then some false else none }

theorem oldScale_keys (count : Nat) : ((oldScale count).trades.map CurveTrade.key).Nodup := by
  rw [oldScale, List.map_map]
  exact List.nodup_range.map fun i j h => congrArg Prod.snd h

theorem oldScale_wrong (count : Nat) : (oldScale count).trades.countP isWrong = count := by
  have hall : ∀ trade ∈ (oldScale count).trades, isWrong trade = true := by
    intro trade htrade
    obtain ⟨i, -, rfl⟩ := List.mem_map.mp htrade
    rfl
  rw [List.countP_eq_length.mpr hall, oldScale, List.length_map, List.length_range]

theorem restateToken_oldScale {count : Nat} (hcount : 0 < count) :
    restateToken (restated (oldScale count)).trades soldToken =
      { soldToken with stats := { soldToken.stats with price := 5223513, marketCap := 5223513 } } := by
  have hsold : ∀ trade ∈ (restated (oldScale count)).trades,
      trade.token = 7 ∧ trade.price = 5223513 := by
    intro trade htrade
    obtain ⟨old, hold, rfl⟩ := List.mem_map.mp htrade
    obtain ⟨i, -, rfl⟩ := List.mem_map.mp hold
    exact ⟨rfl, by rfl⟩
  unfold restateToken
  cases hlatest : latestTrade (tradesOf soldToken.address (restated (oldScale count)).trades) with
  | none =>
    have hnil := List.filter_eq_nil_iff.mp (List.argmax_eq_none.mp hlatest)
    have hfirst : restateTrade (soldAt 0) ∈ (restated (oldScale count)).trades :=
      List.mem_map_of_mem (List.mem_map_of_mem (List.mem_range.mpr hcount))
    exact absurd (decide_eq_true (hsold _ hfirst).1) (hnil _ hfirst)
  | some latest =>
    have hmem := (List.mem_filter.mp (List.argmax_mem hlatest)).1
    simp only [(hsold latest hmem).2]
    rfl

theorem oldScale_fits {count : Nat} (hcount : 0 < count) : Fits (oldScale count) where
  prices trade htrade _ := by
    obtain ⟨i, -, rfl⟩ := List.mem_map.mp htrade
    rfl
  caps token htoken _ := by
    obtain rfl := List.mem_singleton.mp htoken
    change fits (restateToken (restated (oldScale count)).trades soldToken).stats.marketCap = true
    rw [restateToken_oldScale hcount]
    decide

end runs

end Stunks.Scripts.RecomputePrices
