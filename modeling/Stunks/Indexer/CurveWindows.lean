import Stunks.Indexer.Processors.Curve

namespace Stunks.Indexer

open Database Pons Utils

/-- `trades`, and the columns of `tokens` that the curve stream knows. -/
structure CurveTables (H : Type) where
  tokens : List TradedToken
  trades : List (CurveTrade H)

structure CurveReply where
  blockTime : Nat → Nat
  curveState : CurveState
  launched : LaunchedToken Nat

variable {H α β : Type}

namespace TradedToken

variable (token : TradedToken) (stats : TokenStats)

def updateStats : TradedToken :=
  match stats.lastTradeAt with
  | some _ => { token with stats }
  | none => { token with stats := { stats with lastTradeAt := token.stats.lastTradeAt } }

/-- The `SET` of the raw `UPDATE`, with its `COALESCE`. -/
def updateStatsMany : TradedToken :=
  { token with stats := { stats with lastTradeAt := stats.lastTradeAt <|> token.stats.lastTradeAt } }

variable {token stats}

theorem updateStatsMany_eq : token.updateStatsMany stats = token.updateStats stats := by
  obtain ⟨_, _, _, _, _, _, _, _, _, _, lastTradeAt⟩ := stats
  cases lastTradeAt <;> rfl

end TradedToken

/-- A `VALUES` column that holds only NULLs is of type text. -/
def mismatchedTypes : Failure :=
  .error (some "P2010") "COALESCE types text and timestamp without time zone cannot be matched"

def firstRow (rows : List StatsRow) (id : Address) : Option StatsRow :=
  rows.find? fun row => row.token = id

@[simp] theorem firstRow_cons (row : StatsRow) (rows : List StatsRow) (id : Address) :
    firstRow (row :: rows) id = if row.token = id then some row else firstRow rows id := by
  by_cases h : row.token = id <;> simp [firstRow, h]

namespace CurveTables

variable (s : CurveTables H)

def aggregateForTokens (ids : List Address) (since : Option Int) (id : Address) :
    Option TokenTradeAggregate :=
  if id ∈ ids then
    some (.of ((tradesOf id s.trades).filter fun trade =>
      since.all fun start => start ≤ (trade.timestamp : Int)))
  else none

def latestForTokens (ids : List Address) (id : Address) : Option LatestTradeInfo :=
  if id ∈ ids then
    (latestTrade (tradesOf id s.trades)).map fun trade =>
      { price := trade.price, timestamp := trade.timestamp }
  else none

/-- `UPDATE … FROM`, where each token is joined with the row that `pick` has for it. -/
def updateFrom (pick : Address → Option StatsRow) : CurveTables H :=
  { s with tokens := s.tokens.map fun token =>
      match pick token.address with
      | some row => token.updateStatsMany row.stats
      | none => token }

def updateStatsMany (pick : List StatsRow → Address → Option StatsRow) (rows : List StatsRow) :
    Except Failure Nat × CurveTables H :=
  if rows.length = 0 then (.ok 0, s)
  else if rows.any fun row => row.stats.lastTradeAt.isSome then
    (.ok (s.tokens.countP fun token => (pick rows token.address).isSome), s.updateFrom (pick rows))
  else (.error mismatchedTypes, s)

def setPhase (id : Address) (phase : GraduationPhase) : CurveTables H :=
  { s with tokens := s.tokens.map fun token =>
      if token.address = id then { token with phase } else token }

def recordMany (trades : List (CurveTrade H)) : CurveTables H :=
  { s with trades := Table.insertMany CurveTrade.key s.trades trades }

def deleteTradesAbove (blockNumber : Nat) : CurveTables H :=
  { s with trades := s.trades.filter fun trade => trade.blockNumber ≤ blockNumber }

def exec (reply : CurveReply) (s : CurveTables H) :
    CurveCall H β → Except Failure β × CurveTables H
  | .warm _ => (.ok (), s)
  | .blockTime blockNumber => (.ok (reply.blockTime blockNumber), s)
  | .findManyByCurves curves =>
    (.ok (s.tokens.filter fun token => token.curveAddress ∈ curves), s)
  | .recordMany trades =>
    (.ok ((s.recordMany trades).trades.length - s.trades.length), s.recordMany trades)
  | .curveAddressesFor ids => (.ok (s.tokens.filter fun token => token.address ∈ ids), s)
  | .aggregateForTokens ids since => (.ok (s.aggregateForTokens ids since), s)
  | .latestForTokens ids => (.ok (s.latestForTokens ids), s)
  | .curveState _ => (.ok reply.curveState, s)
  | .updateStatsMany rows => s.updateStatsMany firstRow rows
  | .getLaunchedToken _ => (.ok reply.launched, s)
  | .setPhase id phase => (.ok (), s.setPhase id phase)
  | .deleteTradesAbove blockNumber =>
    (.ok (s.trades.length - (s.deleteTradesAbove blockNumber).trades.length),
      s.deleteTradesAbove blockNumber)

end CurveTables

def curveBackend : Backend H (CurveCall H) CurveReply (CurveTables H) where
  logs _ _ query := { logs := [], reachedBlock := query.toBlock }
  blockHash _ _ _ := none
  ext call o s := s.exec o.ext call

abbrev CurveWorld (H : Type) := World H (CurveTables H)

def CurveTables.listed (s : CurveTables H) (curve : Address) : Option (Address × Int) :=
  (tokenByCurve s.tokens curve).map fun token => (token.address, token.totalSupply)

section rows

variable (decodePonsLog : RawLog H → Option PonsEvent) (deps : CurveProcessorDeps)

def tradedToken (listed : Address → Option (Address × Int)) (raw : RawLog H) : Option Address := do
  let event ← decodePonsLog raw
  let _ ← tradeArgs event
  let (token, _) ← listed raw.address
  return token

def rowOf (listed : Address → Option (Address × Int)) (timestamp : Nat) (raw : RawLog H) :
    Option (CurveTrade H) := do
  let event ← decodePonsLog raw
  let args ← tradeArgs event
  let (token, totalSupply) ← listed raw.address
  let price ← (priceFromTrade args.quoteAmount args.tokenAmount).toOption
  let marketCap ← (marketCapFromPrice price totalSupply).toOption
  return tradeRow deps raw token args price marketCap timestamp

inductive Collected (listed : Address → Option (Address × Int)) (times : Nat → Nat → Prop) :
    List (RawLog H) → List (CurveTrade H) → Prop
  | nil : Collected listed times [] []
  | skip {raw logs trades} (hraw : tradedToken decodePonsLog listed raw = none)
      (h : Collected listed times logs trades) : Collected listed times (raw :: logs) trades
  | row {raw logs trades trade timestamp} (htime : times raw.blockNumber timestamp)
      (hraw : rowOf decodePonsLog deps listed timestamp raw = some trade)
      (h : Collected listed times logs trades) :
      Collected listed times (raw :: logs) (trade :: trades)

end rows

def TradedToken.listing (token : TradedToken) : Address × Address × Int :=
  (token.address, token.curveAddress, token.totalSupply)

structure Counted (trades : List (CurveTrade H)) (stats : TokenStats) : Prop where
  volumeTotal : stats.volumeTotal = (TokenTradeAggregate.of trades).volume
  tradeCount : stats.tradeCount = (TokenTradeAggregate.of trades).tradeCount
  buyCount : stats.buyCount = (TokenTradeAggregate.of trades).buyCount
  sellCount : stats.sellCount = (TokenTradeAggregate.of trades).sellCount
  price : ∀ latest, latestTrade trades = some latest → stats.price = latest.price

structure Recomputed (trades : List (CurveTrade H)) (stats : TokenStats) : Prop
    extends Counted trades stats where
  lastTradeAt : ∀ latest, latestTrade trades = some latest →
    stats.lastTradeAt = some latest.timestamp

structure Refreshes (trades : List (CurveTrade H)) (ids : List Address)
    (before after : TradedToken) : Prop where
  listing : after.listing = before.listing
  touched : before.address ∈ ids → Recomputed (tradesOf before.address trades) after.stats
  untouched : before.address ∉ ids → after.stats = before.stats

def Windowed (decodePonsLog : RawLog H → Option PonsEvent) (deps : CurveProcessorDeps)
    (times : Nat → Nat → Prop) (logs : List (RawLog H)) (s t : CurveTables H) : Prop :=
  ∃ rows g, Collected decodePonsLog deps s.listed times logs rows ∧
    t.trades = Table.insertMany CurveTrade.key s.trades rows ∧ t.tokens = s.tokens.map g ∧
    ∀ token ∈ s.tokens, Refreshes t.trades (rows.map CurveTrade.token) token (g token)

def curveProtocol (H : Type) (times : Nat → Nat → Prop) :
    Protocol (Call H (CurveCall H)) Failure (Answers CurveReply) (CurveWorld H) where
  exec := curveBackend.exec
  allow _ o _ := ∀ blockNumber, times blockNumber (o.ext.blockTime blockNumber)
  rely := (· = ·)
  guar _ _ := True
  keep _ := True
  refl _ := rfl
  trans := .trans

section triples

variable {times : Nat → Nat → Prop} {s : CurveTables H}

def Ends (post : α → CurveTables H → Prop) (r : Except Failure α) (w : CurveWorld H) : Prop :=
  ∀ result, r = .ok result → post result w.base

theorem curveKept (P : CurveWorld H → Prop) : (curveProtocol H times).Kept P :=
  ⟨fun h hst => hst ▸ h, fun _ => trivial⟩

theorem return_triple {post : α → CurveTables H → Prop} {a : α} (h : post a s) :
    (curveProtocol H times).Triple (fun w => w.base = s) (pure a : CurveProgram H α) (Ends post) :=
  Protocol.Triple.done (curveKept _) fun w hw result hresult => by
    cases hresult
    rwa [hw]

theorem await_triple (call : CurveCall H α) :
    (curveProtocol H times).Triple (fun w => w.base = s) call.await fun r w =>
      ∃ reply : CurveReply, (∀ blockNumber, times blockNumber (reply.blockTime blockNumber)) ∧
        (∀ a, r = .ok a → s.exec reply call = (.ok a, w.base)) ∧
        (w.base = s ∨ w.base = (s.exec reply call).2) := by
  refine Protocol.Triple.await (curveKept _) (fun _ => curveKept _) fun w o hw ho => ⟨trivial, ?_⟩
  subst hw
  refine ⟨o.ext, ho, ?_⟩
  simp only [curveProtocol]
  cases hfault : o.fault with
  | none =>
    rw [Backend.exec_ok _ hfault]
    simp only [Backend.perform, curveBackend]
    exact ⟨fun a ha => Prod.ext ha rfl, .inr trivial⟩
  | some fault =>
    rw [Backend.exec_fault _ hfault]
    refine ⟨fun a ha => (by cases ha), ?_⟩
    split
    · exact .inr rfl
    · exact .inl rfl

theorem read_triple {call : CurveCall H α} (hread : ∀ reply, (s.exec reply call).2 = s) :
    (curveProtocol H times).Triple (fun w => w.base = s) call.await fun _ w => w.base = s :=
  (await_triple call).imp (fun _ h => h) fun _ _ ⟨reply, _, _, hbase⟩ =>
    hbase.elim id fun h => h.trans (hread reply)

theorem read_bind {call : CurveCall H α} {f : α → CurveProgram H β}
    {post : β → CurveTables H → Prop} (hread : ∀ reply, (s.exec reply call).2 = s)
    (hf : ∀ (reply : CurveReply) a,
      (∀ blockNumber, times blockNumber (reply.blockTime blockNumber)) →
      (s.exec reply call).1 = .ok a →
        (curveProtocol H times).Triple (fun w => w.base = s) (f a) (Ends post)) :
    (curveProtocol H times).Triple (fun w => w.base = s) (call.await >>= f) (Ends post) := by
  refine Protocol.Triple.bind (await_triple call) (fun a w hw => ?_) fun _ _ _ => nofun
  obtain ⟨reply, htimes, hok, -⟩ := hw
  have hexec := hok a rfl
  have hbase := hread reply
  rw [hexec] at hbase
  exact hf reply a htimes (by rw [hexec]) w hbase

theorem write_bind {call : CurveCall H α} {f : α → CurveProgram H β}
    {post : β → CurveTables H → Prop}
    (hf : ∀ reply a s', s.exec reply call = (.ok a, s') →
      (curveProtocol H times).Triple (fun w => w.base = s') (f a) (Ends post)) :
    (curveProtocol H times).Triple (fun w => w.base = s) (call.await >>= f) (Ends post) := by
  refine Protocol.Triple.bind (await_triple call) (fun a w hw => ?_) fun _ _ _ => nofun
  obtain ⟨reply, -, hok, -⟩ := hw
  exact hf reply a w.base (hok a rfl) w rfl

theorem bind_triple {q : CurveProgram H α} {f : α → CurveProgram H β}
    {mid : α → CurveTables H → Prop} {post : β → CurveTables H → Prop}
    (h : (curveProtocol H times).Triple (fun w => w.base = s) q (Ends mid))
    (hf : ∀ a s', mid a s' → (curveProtocol H times).Triple (fun w => w.base = s') (f a) (Ends post)) :
    (curveProtocol H times).Triple (fun w => w.base = s) (q >>= f) (Ends post) :=
  Protocol.Triple.bind h (fun a w hw => hf a w.base (hw a rfl) w rfl) fun _ _ _ => nofun

theorem throwing_bind {x : Except JsError α} {f : α → CurveProgram H β}
    {post : β → CurveTables H → Prop} (hf : ∀ a, x = .ok a →
      (curveProtocol H times).Triple (fun w => w.base = s) (f a) (Ends post)) :
    (curveProtocol H times).Triple (fun w => w.base = s) (throwing x >>= f) (Ends post) := by
  cases x with
  | ok a => exact hf a rfl
  | error error => exact Protocol.Triple.done (curveKept _) fun _ _ => nofun

end triples

section stages

variable {decodePonsLog : RawLog H → Option PonsEvent} {deps : CurveProcessorDeps}
  {times : Nat → Nat → Prop} {s : CurveTables H} {listed : Address → Option (Address × Int)}
  {tokens : List TradedToken} {logs : List (RawLog H)}

theorem Collected.skip_of_decode {raw : RawLog H} {trades : List (CurveTrade H)}
    (hraw : (decodePonsLog raw).bind tradeArgs = none)
    (h : Collected decodePonsLog deps listed times logs trades) :
    Collected decodePonsLog deps listed times (raw :: logs) trades := by
  refine .skip ?_ h
  cases hdecode : decodePonsLog raw with
  | none => simp [tradedToken, hdecode]
  | some event =>
    have hargs : tradeArgs event = none := by simpa [hdecode] using hraw
    simp [tradedToken, hdecode, hargs]

theorem tradeArgs_of_changesPhase {event : PonsEvent} (h : changesPhase event = true) :
    tradeArgs event = none := by
  cases event <;> first | rfl | cases h

theorem collectTrades_triple
    (hlisted : ∀ raw ∈ logs, listed raw.address =
      (tokenByCurve tokens raw.address).map fun token => (token.address, token.totalSupply)) :
    (curveProtocol H times).Triple (fun w => w.base = s)
      (collectTrades decodePonsLog deps tokens logs) (Ends fun pending t => t = s ∧
        Collected decodePonsLog deps listed times logs pending.trades) := by
  induction logs with
  | nil => exact return_triple ⟨rfl, .nil⟩
  | cons raw logs ih =>
    have ih := ih fun raw' hraw' => hlisted raw' (List.mem_cons_of_mem _ hraw')
    have hraw := hlisted raw List.mem_cons_self
    unfold collectTrades
    split
    · rename_i hdecode
      refine ih.imp (fun _ h => h) fun r w h result hr => ?_
      exact ⟨(h result hr).1, .skip_of_decode (by simp [hdecode]) (h result hr).2⟩
    · rename_i event hdecode
      split
      · rename_i hphase
        have hargs := tradeArgs_of_changesPhase hphase
        refine bind_triple ih fun pending t ⟨ht, hpending⟩ => ?_
        have hskip : Collected decodePonsLog deps listed times (raw :: logs) pending.trades :=
          .skip_of_decode (by simp [hdecode, hargs]) hpending
        split
        · exact return_triple ⟨ht, hskip⟩
        · exact return_triple ⟨ht, hskip⟩
      · split
        · rename_i hargs
          refine ih.imp (fun _ h => h) fun r w h result hr => ?_
          exact ⟨(h result hr).1, .skip_of_decode (by simp [hdecode, hargs]) (h result hr).2⟩
        · rename_i args hargs
          split
          · rename_i htoken
            refine bind_triple ih fun pending t ⟨ht, hpending⟩ =>
              return_triple ⟨ht, .skip ?_ hpending⟩
            simp [tradedToken, hdecode, hraw, htoken]
          · rename_i token htoken
            refine throwing_bind fun price hprice => throwing_bind fun marketCap hcap => ?_
            refine read_bind (fun _ => rfl) fun reply timestamp htimes htimestamp => ?_
            refine bind_triple ih fun pending t ⟨ht, hpending⟩ => return_triple ⟨ht, ?_⟩
            cases htimestamp
            refine .row (htimes raw.blockNumber) ?_ hpending
            simp [rowOf, hdecode, hargs, hraw, htoken, hprice, hcap, Except.toOption]

theorem recordTrades_triple {trades : List (CurveTrade H)} :
    (curveProtocol H times).Triple (fun w => w.base = s) (recordTrades trades)
      (Ends fun _ t => t = s.recordMany trades) := by
  unfold recordTrades
  split
  · refine (await_triple (.recordMany trades)).imp (fun _ h => h) fun r w h result hr => ?_
    obtain ⟨reply, -, hok, -⟩ := h
    exact (congrArg Prod.snd (hok result hr)).symm
  · rename_i hempty
    have hnil : trades = [] := List.eq_nil_of_length_eq_zero (by omega)
    exact return_triple (by rw [hnil]; rfl)

theorem readStates_triple {ids : List (Address × Option TradedToken)} :
    (curveProtocol H times).Triple (fun w => w.base = s) (readStates ids)
      (Ends fun states t => t = s ∧ states.map Prod.fst = ids.map Prod.fst) := by
  induction ids with
  | nil => exact return_triple ⟨rfl, rfl⟩
  | cons entry rest ih =>
    obtain ⟨id, _ | token⟩ := entry
    · exact bind_triple ih fun states t ⟨ht, hstates⟩ => return_triple ⟨ht, by simp [hstates]⟩
    · have hattempt : (curveProtocol H times).Triple (fun w => w.base = s)
          (CurveCall.await (.curveState token.curveAddress)).attempt (Ends fun _ t => t = s) := by
        exact Protocol.Triple.attempt
          ((read_triple fun _ => rfl).imp (fun _ h => h) fun _ _ h _ _ => h)
      refine bind_triple hattempt fun state t ht => ?_
      subst ht
      exact bind_triple ih fun states t ⟨ht, hstates⟩ => return_triple ⟨ht, by simp [hstates]⟩

theorem updateFrom_none : s.updateFrom (fun _ => none) = s :=
  congrArg (fun tokens => ({ s with tokens } : CurveTables H)) (List.map_id _)

theorem updateStatsMany_tables (pick : List StatsRow → Address → Option StatsRow)
    (rows : List StatsRow) : (s.updateStatsMany pick rows).2 = s ∨
      (s.updateStatsMany pick rows).2 = s.updateFrom (pick rows) := by
  unfold CurveTables.updateStatsMany
  split
  · exact .inl rfl
  · split
    · exact .inr rfl
    · exact .inl rfl

theorem updateStatsMany_ok {rows : List StatsRow} {n : Nat} {t : CurveTables H}
    (h : s.updateStatsMany firstRow rows = (.ok n, t)) : t = s.updateFrom (firstRow rows) := by
  unfold CurveTables.updateStatsMany at h
  split at h
  · rename_i hempty
    cases h
    rw [List.eq_nil_of_length_eq_zero hempty]
    exact updateFrom_none.symm
  · split at h
    · cases h
      rfl
    · cases h

theorem statsRows_find {totals daily : Address → Option TokenTradeAggregate}
    {latest : Address → Option LatestTradeInfo} {states : List (Address × Option CurveState)}
    {rows : List StatsRow} (h : statsRows tokens totals daily latest states = .ok rows)
    (id : Address) :
    (id ∉ states.map Prod.fst → firstRow rows id = none) ∧
      ∀ token, tokens.find? (fun token => token.address = id) = some token →
        id ∈ states.map Prod.fst → ∃ state stats, (id, state) ∈ states ∧
          statsOf token ((totals id).getD noTrades) ((daily id).getD noTrades) (latest id) state =
              .ok stats ∧
            firstRow rows id = some { token := id, stats } := by
  induction states generalizing rows with
  | nil =>
    cases h
    exact ⟨fun _ => rfl, fun _ _ hid => absurd hid List.not_mem_nil⟩
  | cons entry rest ih =>
    obtain ⟨id', state⟩ := entry
    have hlater : ∀ {rows' : List StatsRow} {token},
        (∃ state stats, (id, state) ∈ rest ∧ statsOf token ((totals id).getD noTrades)
            ((daily id).getD noTrades) (latest id) state = .ok stats ∧
          firstRow rows' id = some { token := id, stats }) →
        ∃ state' stats, (id, state') ∈ (id', state) :: rest ∧
          statsOf token ((totals id).getD noTrades) ((daily id).getD noTrades) (latest id) state' =
              .ok stats ∧ firstRow rows' id = some { token := id, stats } :=
      fun ⟨state, stats, hmem, hfound⟩ => ⟨state, stats, List.mem_cons_of_mem _ hmem, hfound⟩
    unfold statsRows at h
    split at h
    · rename_i hnone
      obtain ⟨ihnone, ihsome⟩ := ih h
      refine ⟨fun hid => ihnone fun hmem => hid (List.mem_cons_of_mem _ hmem),
        fun token htoken hid => hlater (ihsome token htoken ?_)⟩
      rcases List.mem_cons.mp hid with rfl | hid
      · cases hnone.symm.trans htoken
      · exact hid
    · rename_i token htoken
      obtain ⟨stats, hstats, h⟩ := bind_eq_ok.mp h
      obtain ⟨rows', hrest, h⟩ := bind_eq_ok.mp h
      obtain rfl : { token := id', stats } :: rows' = rows := Except.ok.inj h
      obtain ⟨ihnone, ihsome⟩ := ih hrest
      by_cases hid : id' = id
      · subst hid
        refine ⟨fun hid => absurd List.mem_cons_self hid, fun token' htoken' _ => ?_⟩
        obtain rfl : token = token' := Option.some.inj (htoken.symm.trans htoken')
        exact ⟨state, stats, List.mem_cons_self, hstats, by simp⟩
      · have hne : id ≠ id' := fun h => hid h.symm
        refine ⟨fun hmem => ?_, fun token' htoken' hmem => hlater ?_⟩
        · simpa [hid] using ihnone fun hrest => hmem (List.mem_cons_of_mem _ hrest)
        · simpa [hid] using ihsome token' htoken' (by simpa [hne] using hmem)

theorem statsOf_recomputed {token token' : TradedToken} {trades : List (CurveTrade H)}
    {daily : TokenTradeAggregate} {state : Option CurveState} {stats : TokenStats}
    (h : statsOf token (.of trades) daily ((latestTrade trades).map fun trade =>
      { price := trade.price, timestamp := trade.timestamp }) state = .ok stats) :
    Recomputed trades (token'.updateStatsMany stats).stats := by
  obtain ⟨marketCap, -, h⟩ := bind_eq_ok.mp h
  cases h
  refine ⟨⟨rfl, rfl, rfl, rfl, fun latest hlatest => ?_⟩, fun latest hlatest => ?_⟩
  · simp [TradedToken.updateStatsMany, hlatest]
  · simp [TradedToken.updateStatsMany, hlatest]

theorem refreshTokenStatsBatch_triple {ids : List Address} :
    (curveProtocol H times).Triple (fun w => w.base = s) (refreshTokenStatsBatch deps ids)
      (Ends fun _ t => t.trades = s.trades ∧ ∃ g, t.tokens = s.tokens.map g ∧
        ∀ token ∈ s.tokens, Refreshes s.trades ids token (g token)) := by
  unfold refreshTokenStatsBatch
  split
  · rename_i hempty
    have hnil : ids = [] := List.eq_nil_of_length_eq_zero hempty
    refine return_triple ⟨rfl, id, (List.map_id _).symm, fun token _ => ⟨rfl, ?_, fun _ => rfl⟩⟩
    simp [hnil]
  · refine read_bind (fun _ => rfl) fun _ tokens _ htokens => ?_
    cases htokens
    refine read_bind (fun _ => rfl) fun _ totals _ htotals => ?_
    refine read_bind (fun _ => rfl) fun _ daily _ _ => ?_
    refine read_bind (fun _ => rfl) fun _ latest _ hlatest => ?_
    cases htotals
    cases hlatest
    refine bind_triple readStates_triple fun states t ⟨ht, hstates⟩ => ?_
    subst ht
    refine throwing_bind fun rows hrows => write_bind fun _ _ u hu => ?_
    cases updateStatsMany_ok hu
    refine return_triple ⟨rfl, _, rfl, fun token htoken => ?_⟩
    have hkeys : states.map Prod.fst = ids := by
      rw [hstates, List.map_map]
      exact List.map_id _
    obtain ⟨hnone, hsome⟩ := statsRows_find hrows token.address
    rw [hkeys] at hnone hsome
    by_cases hid : token.address ∈ ids
    · obtain ⟨found, hfound⟩ : ∃ found, (t.tokens.filter fun token => token.address ∈ ids).find?
          (fun other => other.address = token.address) = some found := by
        refine Option.isSome_iff_exists.mp (List.find?_isSome.mpr ⟨token, ?_, by simp⟩)
        exact List.mem_filter.mpr ⟨htoken, decide_eq_true hid⟩
      obtain ⟨state, stats, -, hstats, hrow⟩ := hsome found hfound hid
      simp only [hrow]
      refine ⟨rfl, fun _ => ?_, fun h => absurd hid h⟩
      have hall : (tradesOf token.address t.trades).filter (fun _ => true) =
          tradesOf token.address t.trades := List.filter_eq_self.mpr fun _ _ => rfl
      simp only [CurveTables.aggregateForTokens, CurveTables.latestForTokens, if_pos hid,
        Option.all_none, hall, Option.getD_some] at hstats
      exact statsOf_recomputed hstats
    · simp only [hnone hid]
      exact ⟨rfl, fun h => absurd h hid, fun _ => rfl⟩

def PhasesOnly (s t : CurveTables H) : Prop :=
  t.trades = s.trades ∧ ∃ g, t.tokens = s.tokens.map g ∧
    ∀ token, (g token).listing = token.listing ∧ (g token).stats = token.stats

theorem PhasesOnly.refl : PhasesOnly s s := ⟨rfl, id, by simp, fun _ => ⟨rfl, rfl⟩⟩

theorem PhasesOnly.trans {t u : CurveTables H} (h : PhasesOnly s t) (h' : PhasesOnly t u) :
    PhasesOnly s u := by
  obtain ⟨htrades, g, htokens, hg⟩ := h
  obtain ⟨htrades', g', htokens', hg'⟩ := h'
  refine ⟨htrades'.trans htrades, g' ∘ g, by rw [htokens', htokens, List.map_map], fun token => ?_⟩
  obtain ⟨hlisting, hstats⟩ := hg token
  obtain ⟨hlisting', hstats'⟩ := hg' (g token)
  exact ⟨hlisting'.trans hlisting, hstats'.trans hstats⟩

theorem CurveTables.setPhase_phasesOnly {token : Address} {phase : GraduationPhase} :
    PhasesOnly s (s.setPhase token phase) := by
  refine ⟨rfl, _, rfl, fun token' => ?_⟩
  by_cases h : token'.address = token
  · rw [if_pos h]
    exact ⟨rfl, rfl⟩
  · rw [if_neg h]
    exact ⟨rfl, rfl⟩

theorem readPhase_triple {token : Address} :
    (curveProtocol H times).Triple (fun w => w.base = s) (readPhase token)
      fun _ w => PhasesOnly s w.base := by
  have hdone : ∀ r : Except Failure Unit, (curveProtocol H times).Triple (fun w => w.base = s)
      (.done r) fun _ w => PhasesOnly s w.base := fun r =>
    Protocol.Triple.done (curveKept _) fun w hw => hw ▸ .refl
  refine Protocol.Triple.bind (read_triple fun _ => rfl) (fun launch => ?_) fun _ w h => h ▸ .refl
  split
  · exact hdone _
  · split
    · exact hdone _
    · refine (await_triple _).imp (fun _ h => h) fun r w h => ?_
      obtain ⟨reply, -, -, hbase | hbase⟩ := h
      · exact hbase ▸ .refl
      · exact hbase ▸ CurveTables.setPhase_phasesOnly

theorem syncPhasesFromChain_triple {ids : List Address} :
    (curveProtocol H times).Triple (fun w => w.base = s) (syncPhasesFromChain ids)
      (Ends fun _ t => PhasesOnly s t) := by
  induction ids generalizing s with
  | nil => exact return_triple .refl
  | cons token rest ih =>
    have hattempt : (curveProtocol H times).Triple (fun w => w.base = s)
        (readPhase token).attempt (Ends fun _ t => PhasesOnly s t) :=
      Protocol.Triple.attempt (readPhase_triple.imp (fun _ h => h) fun _ _ h _ _ => h)
    have hsync : (curveProtocol H times).Triple (fun w => w.base = s)
        (syncPhaseFromChain token) (Ends fun _ t => PhasesOnly s t) :=
      bind_triple hattempt fun _ _ h => return_triple h
    refine bind_triple hsync fun _ t ht => ?_
    exact ih.imp (fun _ h => h) fun _ _ h result hr => ht.trans (h result hr)

theorem tokenByCurve_filter {curves : List Address} {curve : Address} (h : curve ∈ curves) :
    tokenByCurve (tokens.filter fun token => token.curveAddress ∈ curves) curve =
      tokenByCurve tokens curve := by
  unfold tokenByCurve
  rw [← List.filter_reverse, List.find?_filter]
  congr 1
  funext token
  by_cases hcurve : token.curveAddress = curve
  · simp [hcurve, h]
  · simp [hcurve]

theorem processCurveLogs_triple :
    (curveProtocol H times).Triple (fun w => w.base = s) (processCurveLogs decodePonsLog deps logs)
      (Ends fun _ t => Windowed decodePonsLog deps times logs s t) := by
  refine read_bind (fun _ => rfl) fun _ _ _ _ => read_bind (fun _ => rfl) fun _ _ _ htokens => ?_
  cases htokens
  refine bind_triple (@collectTrades_triple _ _ _ _ s s.listed _ _ fun raw hraw => ?_)
    fun pending t ⟨ht, hpending⟩ => ?_
  · rw [tokenByCurve_filter (List.mem_map_of_mem hraw), CurveTables.listed]
  subst ht
  refine bind_triple recordTrades_triple fun inserted t ht => ?_
  subst ht
  refine bind_triple refreshTokenStatsBatch_triple fun _ t ⟨htrades, g, htokens, hg⟩ => ?_
  refine bind_triple syncPhasesFromChain_triple fun _ u ⟨htrades', g', htokens', hg'⟩ => ?_
  have htrades' : u.trades = _ := htrades'.trans htrades
  refine return_triple ⟨pending.trades, g' ∘ g, hpending, htrades', ?_, fun token htoken => ?_⟩
  · rw [htokens', htokens, List.map_map]
    rfl
  · obtain ⟨hlisting, htouched, huntouched⟩ := hg token htoken
    obtain ⟨hlisting', hstats⟩ := hg' (g token)
    simp only [List.mem_dedup] at htouched huntouched
    rw [htrades']
    refine ⟨hlisting'.trans hlisting, fun hid => ?_, fun hid => hstats.trans (huntouched hid)⟩
    rw [Function.comp_apply, hstats]
    exact htouched hid

end stages

end Stunks.Indexer
