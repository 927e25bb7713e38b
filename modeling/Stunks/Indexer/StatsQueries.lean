import Mathlib.Data.List.ReduceOption
import Stunks.Indexer.StatsRefresh
import Stunks.Lib.Decimal

/-! `trade-batch.ts`: the set-based queries of the batch, and what each answers for one token. -/

namespace Stunks.Indexer

open Database Pons Utils

variable {H : Type}

structure TotalsRow where
  token : Address
  sum : Int
  count : Nat

structure SideRow where
  token : Address
  side : TradeSide
  count : Nat

/-- A row of `latestForTokens`; the price is a text, so that it never passes through a float. -/
structure LatestRow where
  token : Address
  price : List Char
  timestamp : Nat

def numericText (value : Int) : List Char :=
  (if value < 0 then ['-'] else []) ++ Nat.toDigits 10 value.natAbs

def bigIntOfText (text : List Char) : Except JsError Int :=
  let negative := text.head? = some '-'
  let digits := if negative then text.tail else text
  if negative ∧ digits = [] ∨ digits.all Char.isDigit = false then
    .error (.error s!"Cannot convert {String.ofList text} to a BigInt")
  else .ok (if negative then -(Decimal.ofDigits digits : Int) else Decimal.ofDigits digits)

section queries

variable (trades : List (CurveTrade H)) (ids : List Address)

def selectTrades (since : Option Int) : List (CurveTrade H) :=
  trades.filter fun trade =>
    trade.token ∈ ids ∧ since.all fun start => start ≤ (trade.timestamp : Int)

def totalsRows : List (CurveTrade H) → List TotalsRow :=
  Table.groupBy CurveTrade.token fun token rows =>
    { token, sum := (rows.map CurveTrade.quoteAmount).sum, count := rows.length }

def sideRows : List (CurveTrade H) → List SideRow :=
  Table.groupBy (fun trade => (trade.token, trade.side)) fun key rows =>
    { token := key.1, side := key.2, count := rows.length }

def countsBySide (rows : List SideRow) : (Address → Option Nat) × (Address → Option Nat) :=
  rows.foldl (fun (buys, sells) row =>
    if row.side = .buy then (Function.update buys row.token (some row.count), sells)
    else (buys, Function.update sells row.token (some row.count))) (fun _ => none, fun _ => none)

def zeroFill (result : Address → Option TokenTradeAggregate) :
    List Address → Address → Option TokenTradeAggregate
  | [] => result
  | id :: ids =>
    zeroFill (if (result id).isSome then result else Function.update result id (some noTrades)) ids

def aggregateQuery (since : Option Int) : Address → Option TokenTradeAggregate :=
  if ids.length = 0 then fun _ => none
  else
    let selected := selectTrades trades ids since
    let (buys, sells) := countsBySide (sideRows selected)
    let result := Table.fill TotalsRow.token (fun row => {
      volume := row.sum
      tradeCount := row.count
      buyCount := (buys row.token).getD 0
      sellCount := (sells row.token).getD 0 }) (fun _ => none) (totalsRows selected)
    zeroFill result ids

/-- `DISTINCT ON`: of each token the row that comes first in the order, and of rows that tie in it
the one that `findFirst` would return. -/
def latestRows : List LatestRow :=
  (Table.groupBy CurveTrade.token (fun token rows => (latestTrade rows).map fun trade =>
    { token, price := numericText trade.price, timestamp := trade.timestamp })
      (trades.filter fun trade => trade.token ∈ ids)).reduceOption

def readLatest (row : LatestRow) : Except JsError LatestTradeInfo := do
  return { price := ← bigIntOfText ((row.price.splitOn '.').getD 0 ['0'])
           timestamp := row.timestamp }

def latestQuery : Except JsError (Address → Option LatestTradeInfo) :=
  if ids.length = 0 then .ok fun _ => none
  else (latestRows trades ids).foldlM (fun result row => do
    return Function.update result row.token (some (← readLatest row))) fun _ => none

end queries

theorem bigIntOfText_numericText (value : Int) :
    bigIntOfText (numericText value) = .ok value := by
  have hdigits : (Nat.toDigits 10 value.natAbs).all Char.isDigit = true :=
    List.all_eq_true.mpr (Decimal.isDigit_toDigits _)
  have hread : Decimal.ofDigits (Nat.toDigits 10 value.natAbs) = value.natAbs :=
    Nat.ofDigitChars_ten_toDigits
  have hne : Nat.toDigits 10 value.natAbs ≠ [] := Nat.toDigits_ne_nil
  unfold bigIntOfText numericText
  by_cases hneg : value < 0
  · simp only [if_pos hneg, List.singleton_append, List.head?_cons, List.tail_cons, if_true, hne,
      hdigits, hread, and_false, Bool.true_eq_false, or_self, if_false]
    exact congrArg Except.ok (by omega)
  · have hhead : (Nat.toDigits 10 value.natAbs).head? ≠ some '-' := by
      intro h
      have hminus := Decimal.isDigit_toDigits _ _ (List.mem_of_mem_head? h)
      cases hminus
    simp only [if_neg hneg, List.nil_append, hhead, if_false, hdigits, hread, false_and,
      Bool.true_eq_false, or_self]
    exact congrArg Except.ok (by omega)

theorem readLatest_numericText (token : Address) (price : Int) (timestamp : Nat) :
    readLatest { token, price := numericText price, timestamp } =
      .ok { price, timestamp } := by
  have hpoint : '.' ∉ numericText price := by
    unfold numericText
    intro h
    rcases List.mem_append.mp h with hsign | hdigit
    · split at hsign <;> simp at hsign
    · cases Decimal.isDigit_toDigits _ _ hdigit
  unfold readLatest
  rw [List.splitOn_eq_singleton hpoint]
  change (bigIntOfText (numericText price) >>= _) = _
  rw [bigIntOfText_numericText]
  rfl

section answers

variable {trades : List (CurveTrade H)} {ids : List Address} {id : Address} {since : Option Int}

theorem countsBySide_eq (rows : List SideRow) :
    countsBySide rows =
      (Table.fill SideRow.token SideRow.count (fun _ => none)
          (rows.filter fun row => row.side = .buy),
        Table.fill SideRow.token SideRow.count (fun _ => none)
          (rows.filter fun row => ¬ row.side = .buy)) := by
  have hfold : ∀ (buys sells : Address → Option Nat), rows.foldl (fun (buys, sells) row =>
      if row.side = .buy then (Function.update buys row.token (some row.count), sells)
      else (buys, Function.update sells row.token (some row.count))) (buys, sells) =
        (Table.fill SideRow.token SideRow.count buys (rows.filter fun row => row.side = .buy),
          Table.fill SideRow.token SideRow.count sells
            (rows.filter fun row => ¬ row.side = .buy)) := by
    induction rows with
    | nil => exact fun _ _ => rfl
    | cons row rows ih =>
      intro buys sells
      simp only [List.foldl_cons]
      by_cases hside : row.side = .buy
      · rw [if_pos hside, ih, List.filter_cons_of_pos (by simpa using hside),
          List.filter_cons_of_neg (by simpa using hside)]
        rfl
      · rw [if_neg hside, ih, List.filter_cons_of_neg (by simpa using hside),
          List.filter_cons_of_pos (by simpa using hside)]
        rfl
  exact hfold _ _

theorem sideCount_getD (selected : List (CurveTrade H)) (keep : TradeSide → Bool)
    (side : TradeSide) (hkeep : ∀ other, keep other = true ↔ other = side) (token : Address) :
    (Table.fill SideRow.token SideRow.count (fun _ => none)
      ((sideRows selected).filter fun row => keep row.side) token).getD 0 =
        (selected.filter fun trade => trade.token = token).countP fun trade => keep trade.side := by
  have hrows : ∀ row ∈ (sideRows selected).filter fun row => keep row.side, row.count =
      (selected.filter fun trade => trade.token = row.token).countP
        fun trade => keep trade.side := by
    intro row hrow
    obtain ⟨hmem, hside⟩ := List.mem_filter.mp hrow
    obtain ⟨trade, -, rfl⟩ := Table.mem_groupBy.mp hmem
    have hkept := (hkeep _).mp hside
    rw [List.countP_eq_length_filter, List.filter_filter]
    refine congrArg List.length (List.filter_congr fun other _ => ?_)
    rw [Bool.eq_iff_iff, Bool.and_eq_true, hkeep, ← hkept]
    simp [and_comm]
  rw [Table.fill_eq (f := fun token => (selected.filter fun trade => trade.token = token).countP
    fun trade => keep trade.side) hrows]
  split
  · rfl
  · rename_i hnone
    symm
    rw [Option.getD_none, List.countP_eq_zero]
    intro trade htrade hside
    obtain ⟨hmem, htoken⟩ := List.mem_filter.mp htrade
    refine hnone (List.mem_map.mpr ⟨_, List.mem_filter.mpr ⟨Table.mem_groupBy.mpr
      ⟨trade, hmem, rfl⟩, hside⟩, of_decide_eq_true htoken⟩)

theorem buys_getD (selected : List (CurveTrade H)) (token : Address) :
    ((countsBySide (sideRows selected)).1 token).getD 0 =
      (selected.filter fun trade => trade.token = token).countP CurveTrade.isBuy := by
  rw [countsBySide_eq]
  exact sideCount_getD selected (fun side => side = .buy) .buy (by simp) token

theorem sells_getD (selected : List (CurveTrade H)) (token : Address) :
    ((countsBySide (sideRows selected)).2 token).getD 0 =
      (selected.filter fun trade => trade.token = token).countP fun trade => !trade.isBuy := by
  have hsell : ∀ other : TradeSide, decide (¬ other = .buy) = true ↔ other = .sell := by
    intro other
    cases other <;> decide
  rw [countsBySide_eq]
  refine (sideCount_getD selected (fun side => ¬ side = .buy) .sell hsell token).trans ?_
  exact List.countP_congr fun trade _ => by simp [CurveTrade.isBuy]

theorem zeroFill_eq (result : Address → Option TokenTradeAggregate) (ids : List Address)
    (id : Address) :
    zeroFill result ids id = (result id <|> if id ∈ ids then some noTrades else none) := by
  induction ids generalizing result with
  | nil => simp [zeroFill]
  | cons other ids ih =>
    rw [zeroFill, ih]
    by_cases hsome : (result other).isSome = true
    · rw [if_pos hsome]
      by_cases hid : id = other
      · obtain ⟨found, hfound⟩ := Option.isSome_iff_exists.mp hsome
        simp [hid, hfound]
      · simp [hid]
    · rw [if_neg hsome]
      by_cases hid : id = other
      · subst hid
        simp [Option.not_isSome_iff_eq_none.mp hsome]
      · simp [hid]

theorem totals_fill (val : TotalsRow → TokenTradeAggregate) (selected : List (CurveTrade H))
    (token : Address) :
    Table.fill TotalsRow.token val (fun _ => none) (totalsRows selected) token =
      if token ∈ selected.map CurveTrade.token then
        let rows := selected.filter fun trade => trade.token = token
        some (val { token, sum := (rows.map CurveTrade.quoteAmount).sum, count := rows.length })
      else none :=
  Table.fill_groupBy (fun _ _ => rfl) _ token

theorem selected_token (h : id ∈ ids) :
    ((selectTrades trades ids since).filter fun trade => trade.token = id) =
      (tradesOf id trades).filter fun trade =>
        since.all fun start => start ≤ (trade.timestamp : Int) := by
  unfold selectTrades tradesOf
  rw [List.filter_filter, List.filter_filter]
  refine List.filter_congr fun trade _ => ?_
  by_cases htoken : trade.token = id
  · simp [htoken, h]
  · simp [htoken]

/-- The set-based query answers for each token what the aggregates of its trades are. -/
theorem aggregateQuery_eq (s : CurveTables H) (ids : List Address) (since : Option Int) :
    aggregateQuery s.trades ids since = s.aggregateForTokens ids since := by
  funext id
  unfold aggregateQuery CurveTables.aggregateForTokens
  split
  · rename_i hempty
    rw [List.eq_nil_of_length_eq_zero hempty, if_neg List.not_mem_nil]
  · simp only [zeroFill_eq, totals_fill, buys_getD, sells_getD]
    by_cases hid : id ∈ ids
    · simp only [selected_token hid, if_pos hid]
      split
      · rfl
      · rename_i hnone
        rw [← selected_token hid, List.filter_eq_nil_iff.mpr]
        · rfl
        · intro trade htrade htoken
          exact hnone (List.mem_map.mpr ⟨trade, htrade, of_decide_eq_true htoken⟩)
    · have hnone : id ∉ (selectTrades s.trades ids since).map CurveTrade.token := by
        intro hmem
        obtain ⟨trade, htrade, rfl⟩ := List.mem_map.mp hmem
        exact hid (of_decide_eq_true (List.mem_filter.mp htrade).2).1
      simp only [if_neg hnone, if_neg hid]
      rfl

def latestInfo (trade : CurveTrade H) : LatestTradeInfo :=
  { price := trade.price, timestamp := trade.timestamp }

theorem asked_token (h : id ∈ ids) :
    ((trades.filter fun trade => trade.token ∈ ids).filter fun trade => trade.token = id) =
      tradesOf id trades := by
  rw [tradesOf, List.filter_filter]
  refine List.filter_congr fun trade _ => ?_
  by_cases htoken : trade.token = id
  · simp [htoken, h]
  · simp [htoken]

/-- The rows of the query are the latest trades of the tokens that were asked for. -/
theorem mem_latestRows {row : LatestRow} :
    row ∈ latestRows trades ids ↔
      ∃ id ∈ ids, ∃ trade, latestTrade (tradesOf id trades) = some trade ∧
      row = { token := id, price := numericText trade.price, timestamp := trade.timestamp } := by
  unfold latestRows
  rw [List.reduceOption_mem_iff, Table.mem_groupBy]
  constructor
  · rintro ⟨trade, htrade, hrow⟩
    have hid := of_decide_eq_true (List.mem_filter.mp htrade).2
    rw [asked_token hid] at hrow
    obtain ⟨latest, hlatest, rfl⟩ := Option.map_eq_some_iff.mp hrow.symm
    exact ⟨trade.token, hid, latest, hlatest, rfl⟩
  · rintro ⟨id, hid, latest, hlatest, rfl⟩
    obtain ⟨hmem, htoken⟩ := List.mem_filter.mp (List.argmax_mem hlatest)
    obtain rfl := of_decide_eq_true htoken
    refine ⟨latest, List.mem_filter.mpr ⟨hmem, decide_eq_true hid⟩, ?_⟩
    rw [asked_token hid, hlatest]
    rfl

theorem foldlM_read {rows : List LatestRow} {f : Address → LatestTradeInfo}
    (h : ∀ row ∈ rows, readLatest row = .ok (f row.token))
    (result : Address → Option LatestTradeInfo) :
    rows.foldlM (fun result row => do
      return Function.update result row.token (some (← readLatest row))) result =
        .ok (Table.fill LatestRow.token (fun row => f row.token) result rows) := by
  induction rows generalizing result with
  | nil => rfl
  | cons row rows ih =>
    obtain ⟨hrow, hrows⟩ := List.forall_mem_cons.mp h
    rw [List.foldlM_cons, hrow]
    exact ih hrows _

theorem latestQuery_eq (s : CurveTables H) (ids : List Address) :
    latestQuery s.trades ids = .ok (s.latestForTokens ids) := by
  unfold latestQuery
  split
  · rename_i hempty
    rw [List.eq_nil_of_length_eq_zero hempty]
    rfl
  · let f : Address → LatestTradeInfo := fun id =>
      ((latestTrade (tradesOf id s.trades)).map latestInfo).getD { price := 0, timestamp := 0 }
    have hread : ∀ row ∈ latestRows s.trades ids, readLatest row = .ok (f row.token) := by
      intro row hrow
      obtain ⟨id, -, trade, htrade, rfl⟩ := mem_latestRows.mp hrow
      simp only [f, htrade]
      exact readLatest_numericText ..
    rw [foldlM_read hread]
    refine congrArg Except.ok (funext fun id => ?_)
    rw [Table.fill_eq (f := f) fun _ _ => rfl]
    unfold CurveTables.latestForTokens
    by_cases hid : id ∈ ids
    · rw [if_pos hid]
      cases htrade : latestTrade (tradesOf id s.trades) with
      | none =>
        rw [if_neg]
        · rfl
        · intro hmem
          obtain ⟨row, hrow, rfl⟩ := List.mem_map.mp hmem
          obtain ⟨_, -, trade, hsome, rfl⟩ := mem_latestRows.mp hrow
          cases htrade.symm.trans hsome
      | some trade =>
        rw [if_pos (List.mem_map.mpr ⟨_, mem_latestRows.mpr ⟨id, hid, trade, htrade, rfl⟩, rfl⟩)]
        simp only [f, htrade]
        rfl
    · rw [if_neg hid, if_neg]
      intro hmem
      obtain ⟨row, hrow, htoken⟩ := List.mem_map.mp hmem
      obtain ⟨asked, hasked, trade, -, heq⟩ := mem_latestRows.mp hrow
      rw [heq] at htoken
      exact hid (htoken ▸ hasked)

end answers

end Stunks.Indexer
