import Stunks.Indexer.CurveWindows
import Stunks.Lib.Trace

namespace Stunks.Indexer

open Database Pons

structure CurveWindow (H : Type) where
  now : Int
  logs : List (RawLog H)
  answers : List (Answers CurveReply)

/-- A window is processed, or a reorg is rolled back to `toBlock`. -/
inductive CurveOp (H : Type)
  | window (w : CurveWindow H)
  | rollback (toBlock : Nat)

variable {H : Type}

section runs

variable (decodePonsLog : RawLog H → Option PonsEvent) (deps : CurveProcessorDeps)

def CurveTables.window (s : CurveTables H) (w : CurveWindow H) : Option (CurveTables H) :=
  let start : CurveWorld H := { tables := .empty, base := s }
  match (processCurveLogs decodePonsLog { deps with now := w.now } w.logs).drive curveBackend.exec
      w.answers start with
  | (some (.ok _), world) => some world.base
  | _ => none

def CurveTables.step (s : CurveTables H) : CurveOp H → Option (CurveTables H)
  | .window w => s.window decodePonsLog deps w
  | .rollback toBlock => some (s.deleteTradesAbove toBlock)

abbrev CurveRun := Trace fun (s : CurveTables H) op t => s.step decodePonsLog deps op = some t

def CurveOp.touches (listed : Address → Option (Address × Int)) (op : CurveOp H) (token : Address) :
    Prop :=
  match op with
  | .window w => ∃ raw ∈ w.logs, tradedToken decodePonsLog listed raw = some token
  | .rollback _ => False

end runs

section windows

variable {decodePonsLog : RawLog H → Option PonsEvent} {deps : CurveProcessorDeps}
  {times : Nat → Nat → Prop} {s t u : CurveTables H} {listed : Address → Option (Address × Int)}
  {logs logs' : List (RawLog H)} {rows rows' : List (CurveTrade H)} {raw : RawLog H}
  {row : CurveTrade H} {timestamp timestamp' : Nat} {token : Address}

theorem rowOf_eq (h : rowOf decodePonsLog deps listed timestamp raw = some row) :
    ∃ event args supply price cap, decodePonsLog raw = some event ∧ tradeArgs event = some args ∧
      listed raw.address = some (row.token, supply) ∧
      priceFromTrade args.quoteAmount args.tokenAmount = .ok price ∧
      marketCapFromPrice price supply = .ok cap ∧
      row = tradeRow deps raw row.token args price cap timestamp := by
  simp only [rowOf, Option.bind_eq_bind, Option.bind_eq_some_iff] at h
  obtain ⟨event, hdecode, args, hargs, ⟨token, supply⟩, hlisted, price, hprice, cap, hcap, hrow⟩ := h
  have hok : ∀ {x : Except JsError Int} {a : Int}, x.toOption = some a → x = .ok a := by
    rintro (_ | _) _ ⟨⟩
    rfl
  cases hrow
  exact ⟨event, args, supply, price, cap, hdecode, hargs, hlisted, hok hprice, hok hcap, rfl⟩

theorem tradedToken_of_rowOf (h : rowOf decodePonsLog deps listed timestamp raw = some row) :
    tradedToken decodePonsLog listed raw = some row.token := by
  obtain ⟨event, args, supply, price, cap, hdecode, hargs, hlisted, -⟩ := rowOf_eq h
  simp [tradedToken, hdecode, hargs, hlisted]

theorem key_of_rowOf (h : rowOf decodePonsLog deps listed timestamp raw = some row) :
    row.key = (raw.transactionHash, raw.logIndex) := by
  obtain ⟨event, args, supply, price, cap, -, -, -, -, -, hrow⟩ := rowOf_eq h
  rw [hrow]
  rfl

theorem position_of_rowOf (h : rowOf decodePonsLog deps listed timestamp raw = some row) :
    row.position = toLex (raw.blockNumber, raw.logIndex) := by
  obtain ⟨event, args, supply, price, cap, -, -, -, -, -, hrow⟩ := rowOf_eq h
  rw [hrow]
  rfl

theorem rowOf_at (h : rowOf decodePonsLog deps listed timestamp raw = some row) :
    rowOf decodePonsLog deps listed timestamp' raw = some { row with timestamp := timestamp' } := by
  obtain ⟨event, args, supply, price, cap, hdecode, hargs, hlisted, hprice, hcap, hrow⟩ :=
    rowOf_eq h
  simp only [rowOf, hdecode, hargs, hlisted, hprice, hcap, Except.toOption, Option.bind_eq_bind,
    Option.bind_some]
  rw [hrow]
  rfl

theorem Collected.mem (h : Collected decodePonsLog deps listed times logs rows)
    (hrow : row ∈ rows) :
    ∃ raw ∈ logs, ∃ timestamp, times raw.blockNumber timestamp ∧
      rowOf decodePonsLog deps listed timestamp raw = some row := by
  induction h with
  | nil => cases hrow
  | skip hraw h ih =>
    obtain ⟨raw, hmem, hraw⟩ := ih hrow
    exact ⟨raw, List.mem_cons_of_mem _ hmem, hraw⟩
  | @row raw logs rows trade timestamp htime hraw h ih =>
    rcases List.mem_cons.mp hrow with rfl | hrow
    · exact ⟨raw, List.mem_cons_self, timestamp, htime, hraw⟩
    · obtain ⟨raw, hmem, hraw⟩ := ih hrow
      exact ⟨raw, List.mem_cons_of_mem _ hmem, hraw⟩

theorem Collected.exists (h : Collected decodePonsLog deps listed times logs rows)
    (hraw : raw ∈ logs) (htoken : tradedToken decodePonsLog listed raw = some token) :
    ∃ row ∈ rows, ∃ timestamp, times raw.blockNumber timestamp ∧
      rowOf decodePonsLog deps listed timestamp raw = some row := by
  induction h with
  | nil => cases hraw
  | skip hskip h ih =>
    rcases List.mem_cons.mp hraw with rfl | hraw
    · cases hskip.symm.trans htoken
    · exact ih hraw
  | @row raw' logs rows trade timestamp htime hrow h ih =>
    rcases List.mem_cons.mp hraw with rfl | hraw
    · exact ⟨trade, List.mem_cons_self, timestamp, htime, hrow⟩
    · obtain ⟨row, hmem, hrow⟩ := ih hraw
      exact ⟨row, List.mem_cons_of_mem _ hmem, hrow⟩

theorem Collected.mem_tokens (h : Collected decodePonsLog deps listed times logs rows) :
    token ∈ rows.map CurveTrade.token ↔
      ∃ raw ∈ logs, tradedToken decodePonsLog listed raw = some token := by
  constructor
  · intro hmem
    obtain ⟨row, hrow, rfl⟩ := List.mem_map.mp hmem
    obtain ⟨raw, hraw, _, -, hrowOf⟩ := h.mem hrow
    exact ⟨raw, hraw, tradedToken_of_rowOf hrowOf⟩
  · rintro ⟨raw, hraw, htoken⟩
    obtain ⟨row, hrow, _, -, hrowOf⟩ := h.exists hraw htoken
    have heq := (tradedToken_of_rowOf hrowOf).symm.trans htoken
    exact List.mem_map.mpr ⟨row, hrow, Option.some.inj heq⟩

theorem Collected.append (h : Collected decodePonsLog deps listed times logs rows)
    (h' : Collected decodePonsLog deps listed times logs' rows') :
    Collected decodePonsLog deps listed times (logs ++ logs') (rows ++ rows') := by
  induction h with
  | nil => exact h'
  | skip hraw _ ih => exact .skip hraw ih
  | row htime hraw _ ih => exact .row htime hraw ih

theorem Collected.of_now {now : Int}
    (h : Collected decodePonsLog { deps with now } listed times logs rows) :
    Collected decodePonsLog deps listed times logs rows := by
  induction h with
  | nil => exact .nil
  | skip hraw _ ih => exact .skip hraw ih
  | row htime hraw _ ih => exact .row htime hraw ih

theorem listed_map {g : TradedToken → TradedToken} (htokens : t.tokens = s.tokens.map g)
    (hg : ∀ token ∈ s.tokens, (g token).listing = token.listing) : t.listed = s.listed := by
  funext curve
  have hlisting : t.tokens.map TradedToken.listing = s.tokens.map TradedToken.listing := by
    rw [htokens, List.map_map]
    exact List.map_congr_left hg
  have hview : ∀ tokens : List TradedToken, ((tokenByCurve tokens curve).map fun token =>
      (token.address, token.totalSupply)) =
        ((tokens.map TradedToken.listing).reverse.find? fun row => row.2.1 = curve).map fun row =>
          (row.1, row.2.2) := by
    intro tokens
    rw [← List.map_reverse, List.find?_map, Option.map_map]
    rfl
  rw [CurveTables.listed, CurveTables.listed, hview, hview, hlisting]

theorem Windowed.listed_eq (h : Windowed decodePonsLog deps times logs s t) :
    t.listed = s.listed := by
  obtain ⟨rows, g, -, -, htokens, hg⟩ := h
  exact listed_map htokens fun token htoken => (hg token htoken).listing

theorem tradesOf_insertMany (h : token ∉ rows.map CurveTrade.token) (trades : List (CurveTrade H)) :
    tradesOf token (Table.insertMany CurveTrade.key trades rows) = tradesOf token trades :=
  Table.filter_insertMany fun row hrow =>
    decide_eq_false fun heq => h (List.mem_map.mpr ⟨row, hrow, heq⟩)

theorem Windowed.refl : Windowed decodePonsLog deps times [] s s :=
  ⟨[], id, .nil, rfl, (List.map_id _).symm, fun _ _ => ⟨rfl, nofun, fun _ => rfl⟩⟩

theorem Windowed.append (h : Windowed decodePonsLog deps times logs s t)
    (h' : Windowed decodePonsLog deps times logs' t u) :
    Windowed decodePonsLog deps times (logs ++ logs') s u := by
  have hlisted := h.listed_eq
  obtain ⟨rows, g, hrows, htrades, htokens, hg⟩ := h
  obtain ⟨rows', g', hrows', htrades', htokens', hg'⟩ := h'
  rw [hlisted] at hrows'
  refine ⟨rows ++ rows', g' ∘ g, hrows.append hrows', ?_, ?_, fun token htoken => ?_⟩
  · rw [htrades', htrades, Table.insertMany_append]
  · rw [htokens', htokens, List.map_map]
  · have hfirst := hg token htoken
    have hsecond := hg' (g token) (htokens ▸ List.mem_map_of_mem htoken)
    have haddress : (g token).address = token.address := congrArg Prod.fst hfirst.listing
    rw [List.map_append]
    refine ⟨hsecond.listing.trans hfirst.listing, fun hid => ?_, fun hid => ?_⟩
    · by_cases hlast : token.address ∈ rows'.map CurveTrade.token
      · have hdone := hsecond.touched (haddress.symm ▸ hlast)
        rwa [haddress] at hdone
      · have hfront := (List.mem_append.mp hid).resolve_right hlast
        have hkept := hsecond.untouched (haddress.symm ▸ hlast)
        rw [htrades', tradesOf_insertMany hlast, Function.comp_apply, hkept]
        exact hfirst.touched hfront
    · obtain ⟨hfront, hlast⟩ := not_or.mp (mt List.mem_append.mpr hid)
      exact (hsecond.untouched (haddress.symm ▸ hlast)).trans (hfirst.untouched hfront)

theorem CurveTables.window_spec {w : CurveWindow H} (h : s.window decodePonsLog deps w = some t)
    (htimes : ∀ o ∈ w.answers, ∀ blockNumber, times blockNumber (o.ext.blockTime blockNumber)) :
    Windowed decodePonsLog deps times w.logs s t := by
  simp only [CurveTables.window] at h
  split at h
  · rename_i result world hdrive
    cases h
    have hsafe : (curveProtocol H times).Safe _
        (processCurveLogs decodePonsLog { deps with now := w.now } w.logs)
        { tables := .empty, base := s } := processCurveLogs_triple _ rfl
    obtain ⟨-, hend⟩ := hsafe.drive fun o (ho : o ∈ w.answers) _ _ _ => htimes o ho
    have hdrive : Async.drive (curveProtocol H times).exec _ _ _ = _ := hdrive
    rw [hdrive] at hend
    obtain ⟨rows, g, hrows, hrest⟩ := hend _ rfl result rfl
    exact ⟨rows, g, hrows.of_now, hrest⟩
  · cases h

end windows

def CurveTables.References (s : CurveTables H) : Prop :=
  ∀ trade ∈ s.trades, trade.token ∈ s.tokens.map TradedToken.address

def CurveTables.Right (s : CurveTables H) : Prop :=
  ∀ token ∈ s.tokens, Counted (tradesOf token.address s.trades) token.stats

def CurveTables.Fresh (s : CurveTables H) (id : Address) : Prop :=
  ∀ token ∈ s.tokens, token.address = id → Counted (tradesOf id s.trades) token.stats

def CurveTables.Stale (s : CurveTables H) (id : Address) : Prop :=
  ∃ token ∈ s.tokens, token.address = id ∧ (tradesOf id s.trades).length < token.stats.tradeCount

section reorgs

variable (decodePonsLog : RawLog H → Option PonsEvent) (deps : CurveProcessorDeps)
  (listed : Address → Option (Address × Int))

/-- Wherever a rollback deletes a trade of the token, a later window trades the token. -/
def Redone (id : Address) (s : CurveTables H) (ops : List (CurveOp H)) : Prop :=
  ∀ ops₁ toBlock ops₂ s₁, ops = ops₁ ++ .rollback toBlock :: ops₂ →
    CurveRun decodePonsLog deps s ops₁ s₁ →
      ∀ trade ∈ s₁.trades, trade.token = id → toBlock < trade.blockNumber →
        ∃ op ∈ ops₂, op.touches decodePonsLog listed id

end reorgs

section stats

variable {decodePonsLog : RawLog H → Option PonsEvent} {deps : CurveProcessorDeps}
  {s t : CurveTables H} {listed : Address → Option (Address × Int)} {op : CurveOp H}
  {ops : List (CurveOp H)} {id : Address} {toBlock : Nat}

theorem CurveTables.Stale.not_fresh (h : s.Stale id) : ¬s.Fresh id := by
  obtain ⟨token, htoken, haddress, hlt⟩ := h
  intro hfresh
  have hcount : token.stats.tradeCount = (tradesOf id s.trades).length :=
    (hfresh token htoken haddress).tradeCount
  omega

theorem tradesOf_deleteTradesAbove (s : CurveTables H) (toBlock : Nat) (id : Address) :
    tradesOf id (s.deleteTradesAbove toBlock).trades =
      (tradesOf id s.trades).filter fun trade => trade.blockNumber ≤ toBlock := by
  simp only [tradesOf, CurveTables.deleteTradesAbove, List.filter_filter, Bool.and_comm]

theorem CurveTables.Fresh.rollback (h : s.Fresh id)
    (hkept : ∀ trade ∈ s.trades, trade.token = id → trade.blockNumber ≤ toBlock) :
    (s.deleteTradesAbove toBlock).Fresh id := by
  have heq : tradesOf id (s.deleteTradesAbove toBlock).trades = tradesOf id s.trades := by
    rw [tradesOf_deleteTradesAbove, List.filter_eq_self]
    intro trade htrade
    obtain ⟨hmem, hid⟩ := List.mem_filter.mp htrade
    exact decide_eq_true (hkept trade hmem (of_decide_eq_true hid))
  intro token htoken haddress
  rw [heq]
  exact h token htoken haddress

theorem CurveTables.Fresh.stale_rollback (h : s.Fresh id) {trade : CurveTrade H}
    (href : s.References) (htrade : trade ∈ s.trades) (hid : trade.token = id)
    (hgone : toBlock < trade.blockNumber) : (s.deleteTradesAbove toBlock).Stale id := by
  obtain ⟨token, htoken, haddress⟩ := List.mem_map.mp (hid ▸ href trade htrade)
  have hcount : token.stats.tradeCount = (tradesOf id s.trades).length :=
    (h token htoken haddress).tradeCount
  refine ⟨token, htoken, haddress, ?_⟩
  rw [hcount, tradesOf_deleteTradesAbove]
  refine List.length_filter_lt_length_iff_exists.mpr ⟨trade, ?_, ?_⟩
  · exact List.mem_filter.mpr ⟨htrade, decide_eq_true hid⟩
  · simpa using hgone

theorem CurveTables.Stale.rollback (h : s.Stale id) : (s.deleteTradesAbove toBlock).Stale id := by
  obtain ⟨token, htoken, haddress, hlt⟩ := h
  refine ⟨token, htoken, haddress, ?_⟩
  rw [tradesOf_deleteTradesAbove]
  exact Nat.lt_of_le_of_lt (List.length_filter_le ..) hlt

theorem Windowed.recomputed {times : Nat → Nat → Prop} {logs : List (RawLog H)}
    {token : TradedToken} (h : Windowed decodePonsLog deps times logs s t)
    (htoken : token ∈ t.tokens)
    (htouched : ∃ raw ∈ logs, tradedToken decodePonsLog s.listed raw = some token.address) :
    Recomputed (tradesOf token.address t.trades) token.stats := by
  obtain ⟨rows, g, hrows, -, htokens, hg⟩ := h
  rw [htokens] at htoken
  obtain ⟨before, hbefore, rfl⟩ := List.mem_map.mp htoken
  have hrefresh := hg before hbefore
  have heq : (g before).address = before.address := congrArg Prod.fst hrefresh.listing
  rw [heq] at htouched ⊢
  exact hrefresh.touched (hrows.mem_tokens.mpr htouched)

theorem Windowed.fresh {times : Nat → Nat → Prop} {logs : List (RawLog H)}
    (h : Windowed decodePonsLog deps times logs s t)
    (htouched : ∃ raw ∈ logs, tradedToken decodePonsLog s.listed raw = some id) : t.Fresh id := by
  rintro token htoken rfl
  exact (h.recomputed htoken htouched).toCounted

theorem Windowed.untouched {times : Nat → Nat → Prop} {logs : List (RawLog H)}
    (h : Windowed decodePonsLog deps times logs s t)
    (huntouched : ¬∃ raw ∈ logs, tradedToken decodePonsLog s.listed raw = some id) :
    (s.Fresh id → t.Fresh id) ∧ (s.Stale id → t.Stale id) := by
  obtain ⟨rows, g, hrows, htrades, htokens, hg⟩ := h
  have hid : id ∉ rows.map CurveTrade.token := mt hrows.mem_tokens.mp huntouched
  have hkept : tradesOf id t.trades = tradesOf id s.trades := by
    rw [htrades, tradesOf_insertMany hid]
  constructor
  · intro hfresh token htoken haddress
    rw [htokens] at htoken
    obtain ⟨before, hbefore, rfl⟩ := List.mem_map.mp htoken
    have heq : before.address = id :=
      (congrArg Prod.fst (hg before hbefore).listing).symm.trans haddress
    rw [hkept, (hg before hbefore).untouched (heq.symm ▸ hid)]
    exact hfresh before hbefore heq
  · rintro ⟨before, hbefore, haddress, hlt⟩
    refine ⟨g before, htokens ▸ List.mem_map_of_mem hbefore, ?_, ?_⟩
    · exact (congrArg Prod.fst (hg before hbefore).listing).trans haddress
    · rwa [hkept, (hg before hbefore).untouched (haddress.symm ▸ hid)]

theorem mem_of_listed {curve : Address} {supply : Int} (h : s.listed curve = some (id, supply)) :
    id ∈ s.tokens.map TradedToken.address := by
  obtain ⟨token, htoken, heq⟩ := Option.map_eq_some_iff.mp h
  have hmem := List.mem_reverse.mp (List.mem_of_find?_eq_some htoken)
  exact List.mem_map.mpr ⟨token, hmem, congrArg Prod.fst heq⟩

theorem Windowed.addresses {times : Nat → Nat → Prop} {logs : List (RawLog H)}
    (h : Windowed decodePonsLog deps times logs s t) :
    t.tokens.map TradedToken.address = s.tokens.map TradedToken.address := by
  obtain ⟨rows, g, -, -, htokens, hg⟩ := h
  rw [htokens, List.map_map]
  exact List.map_congr_left fun token htoken => congrArg Prod.fst (hg token htoken).listing

theorem Windowed.references {times : Nat → Nat → Prop} {logs : List (RawLog H)}
    (h : Windowed decodePonsLog deps times logs s t) (href : s.References) : t.References := by
  unfold CurveTables.References
  rw [h.addresses]
  obtain ⟨rows, g, hrows, htrades, -, -⟩ := h
  intro trade htrade
  rw [htrades] at htrade
  cases Table.of_mem_insertMany htrade with
  | inl hold => exact href trade hold
  | inr hnew =>
    obtain ⟨raw, -, timestamp, -, hrow⟩ := hrows.mem hnew
    obtain ⟨event, args, supply, price, cap, -, -, hlisted, -⟩ := rowOf_eq hrow
    exact mem_of_listed hlisted

theorem CurveTables.step_window {w : CurveWindow H}
    (h : s.step decodePonsLog deps (.window w) = some t) :
    Windowed decodePonsLog deps (fun _ _ => True) w.logs s t :=
  CurveTables.window_spec h fun _ _ _ => trivial

theorem CurveTables.step_kept (h : s.step decodePonsLog deps op = some t) :
    t.listed = s.listed ∧ t.tokens.map TradedToken.address = s.tokens.map TradedToken.address ∧
      (s.References → t.References) := by
  cases op with
  | window w =>
    have hw := CurveTables.step_window h
    exact ⟨hw.listed_eq, hw.addresses, hw.references⟩
  | rollback toBlock =>
    cases h
    exact ⟨rfl, rfl, fun href trade htrade => href trade (List.mem_filter.mp htrade).1⟩

theorem Redone.nil : Redone decodePonsLog deps listed id s [] := by
  intro ops₁ toBlock ops₂ s₁ hops
  simp at hops

theorem Redone.cons (h : s.step decodePonsLog deps op = some t) :
    Redone decodePonsLog deps listed id s (op :: ops) ↔
      (∀ toBlock, op = .rollback toBlock → ∀ trade ∈ s.trades, trade.token = id →
        toBlock < trade.blockNumber → ∃ op ∈ ops, op.touches decodePonsLog listed id) ∧
      Redone decodePonsLog deps listed id t ops := by
  constructor
  · intro hredone
    refine ⟨fun toBlock hop trade htrade hid hgone => ?_, fun ops₁ toBlock ops₂ s₁ hops hrun => ?_⟩
    · exact hredone [] toBlock ops s (by simp [hop]) .nil trade htrade hid hgone
    · exact hredone (op :: ops₁) toBlock ops₂ s₁ (by simp [hops]) (.cons h hrun)
  · rintro ⟨hfirst, hrest⟩ ops₁ toBlock ops₂ s₁ hops hrun
    cases hrun with
    | nil =>
      obtain ⟨rfl, rfl⟩ := List.cons.inj hops
      exact fun trade htrade hid hgone => hfirst toBlock rfl trade htrade hid hgone
    | cons hstep hrun =>
      obtain ⟨rfl, htail⟩ := List.cons.inj hops
      cases h.symm.trans hstep
      exact hrest _ toBlock ops₂ s₁ htail hrun

/-- A token is behind exactly from a rollback that deletes a trade of it to the next window that
trades it.  The induction carries both states of a token. -/
theorem fresh_iff (href : s.References) (hlisted : s.listed = listed)
    (hrun : CurveRun decodePonsLog deps s ops t) :
    (s.Fresh id → (t.Fresh id ↔ Redone decodePonsLog deps listed id s ops)) ∧
      (s.Stale id → (t.Fresh id ↔ (∃ op ∈ ops, op.touches decodePonsLog listed id) ∧
        Redone decodePonsLog deps listed id s ops)) := by
  induction hrun with
  | nil => exact ⟨fun h => iff_of_true h .nil, fun h => iff_of_false h.not_fresh (by simp)⟩
  | @cons s op s₁ ops t hstep hrun ih =>
    obtain ⟨hlisted', -, href'⟩ := CurveTables.step_kept hstep
    obtain ⟨ihfresh, ihstale⟩ := ih (href' href) (hlisted'.trans hlisted)
    rw [Redone.cons hstep]
    simp only [List.exists_mem_cons_iff]
    cases op with
    | window w =>
      have hw := CurveTables.step_window hstep
      have hnone : ∀ toBlock, CurveOp.window w = .rollback toBlock →
          ∀ trade ∈ s.trades, trade.token = id → toBlock < trade.blockNumber →
            ∃ op ∈ ops, op.touches decodePonsLog listed id := fun _ h => nomatch h
      by_cases htouched : ∃ raw ∈ w.logs, tradedToken decodePonsLog s.listed raw = some id
      · have htouches : (CurveOp.window w).touches decodePonsLog listed id := hlisted ▸ htouched
        have hiff := ihfresh (hw.fresh htouched)
        exact ⟨fun _ => hiff.trans (and_iff_right hnone).symm, fun _ => hiff.trans
          ⟨fun h => ⟨.inl htouches, hnone, h⟩, fun h => h.2.2⟩⟩
      · have huntouched : ¬(CurveOp.window w).touches decodePonsLog listed id := hlisted ▸ htouched
        obtain ⟨hfresh, hstale⟩ := hw.untouched htouched
        refine ⟨fun h => (ihfresh (hfresh h)).trans (and_iff_right hnone).symm, fun h => ?_⟩
        rw [ihstale (hstale h), or_iff_right huntouched, and_iff_right hnone]
    | rollback toBlock =>
      cases hstep
      have huntouched : ¬(CurveOp.rollback toBlock : CurveOp H).touches decodePonsLog listed id :=
        fun h => h
      refine ⟨fun h => ?_, fun h => ?_⟩
      · by_cases hgone : ∃ trade ∈ s.trades, trade.token = id ∧ toBlock < trade.blockNumber
        · obtain ⟨trade, htrade, hid, hlt⟩ := hgone
          rw [ihstale (h.stale_rollback href htrade hid hlt)]
          refine and_congr_left fun _ => ⟨fun hlater => ?_, fun hlater => ?_⟩
          · rintro _ ⟨⟩ _ _ _ _
            exact hlater
          · exact hlater toBlock rfl trade htrade hid hlt
        · have hkept : ∀ trade ∈ s.trades, trade.token = id → trade.blockNumber ≤ toBlock :=
            fun trade htrade hid => Nat.le_of_not_lt fun hlt => hgone ⟨trade, htrade, hid, hlt⟩
          rw [ihfresh (h.rollback hkept)]
          refine (and_iff_right ?_).symm
          rintro _ ⟨⟩ trade htrade hid hlt
          exact absurd ⟨trade, htrade, hid, hlt⟩ hgone
      · rw [ihstale h.rollback, or_iff_right huntouched]
        refine and_congr_right fun hlater => (and_iff_right ?_).symm
        rintro _ ⟨⟩ _ _ _ _
        exact hlater

theorem right_iff_fresh : s.Right ↔ ∀ id ∈ s.tokens.map TradedToken.address, s.Fresh id := by
  constructor
  · rintro h _ - token htoken rfl
    exact h token htoken
  · intro h token htoken
    exact h token.address (List.mem_map_of_mem htoken) token htoken rfl

theorem CurveRun.kept (hrun : CurveRun decodePonsLog deps s ops t) (href : s.References) :
    t.tokens.map TradedToken.address = s.tokens.map TradedToken.address ∧ t.References := by
  induction hrun with
  | nil => exact ⟨rfl, href⟩
  | cons hstep hrun ih =>
    obtain ⟨-, haddresses, href'⟩ := CurveTables.step_kept hstep
    obtain ⟨ihaddresses, ihref⟩ := ih (href' href)
    exact ⟨ihaddresses.trans haddresses, ihref⟩

/-- At the end of a run every token has the stats of its stored trades exactly when, after each
rollback, every token that lost a trade to it has been traded again. -/
theorem run_right_iff (href : s.References) (hright : s.Right)
    (hrun : CurveRun decodePonsLog deps s ops t) :
    t.Right ↔ ∀ ops₁ toBlock ops₂ s₁, ops = ops₁ ++ .rollback toBlock :: ops₂ →
      CurveRun decodePonsLog deps s ops₁ s₁ → ∀ trade ∈ s₁.trades, toBlock < trade.blockNumber →
        ∃ op ∈ ops₂, op.touches decodePonsLog s.listed trade.token := by
  obtain ⟨haddresses, -⟩ := hrun.kept href
  rw [right_iff_fresh, haddresses]
  rw [right_iff_fresh] at hright
  constructor
  · intro hfresh ops₁ toBlock ops₂ s₁ hops hfront trade htrade hgone
    obtain ⟨haddresses', href'⟩ := CurveRun.kept hfront href
    have hid := haddresses' ▸ href' trade htrade
    have hredone := ((fresh_iff href rfl hrun).1 (hright _ hid)).mp (hfresh _ hid)
    exact hredone ops₁ toBlock ops₂ s₁ hops hfront trade htrade rfl hgone
  · intro hlater id hid
    refine ((fresh_iff href rfl hrun).1 (hright id hid)).mpr ?_
    rintro ops₁ toBlock ops₂ s₁ hops hfront trade htrade rfl hgone
    exact hlater ops₁ toBlock ops₂ s₁ hops hfront trade htrade hgone

end stats

section sample

def sampleStats : TokenStats :=
  { realQuoteReserve := 0, graduationBps := 0, price := 0, marketCap := 0, volume24h := 0,
    volumeTotal := 0, holderCount := 0, tradeCount := 0, buyCount := 0, sellCount := 0,
    lastTradeAt := none }

def sampleTables : CurveTables Nat where
  tokens := [{ address := 1, curveAddress := 2, totalSupply := 1000, phase := .notGraduated,
               stats := sampleStats }]
  trades := []

def sampleBuy (_ : RawLog Nat) : Option PonsEvent :=
  some (.curveBuy { buyer := 8, recipient := 8, quoteIn := 10, tokensOut := 5, fee := 0, tax := 0 })

def sampleDeps : CurveProcessorDeps := { now := 0 }

def sampleLog (blockNumber : Nat) : RawLog Nat :=
  { address := 2, topics := [], data := [], blockNumber, blockHash := blockNumber,
    transactionHash := 7, logIndex := 0 }

def sampleCurveState : CurveState :=
  { curve := 2, pairToken := 0, pricingQuoteReserve := 10, realQuoteReserve := 10,
    tokenReserve := 1000, phantomQuote := 10, reservedTokens := 200, graduationThreshold := 40,
    feeBps := 100, creatorTaxBps := 0, graduated := false, readyToGraduate := false,
    launchedAt := 0, snipeTaxStartBps := 0, snipeTaxSeconds := 0 }

def sampleLaunched : LaunchedToken Nat :=
  { creatorFeeRecipient := 2, graduationThreshold := 40, poolFee := 1, tickSpacing := 1,
    creatorTaxBps := 0, buybackEnabled := false, phase := 0, exists_ := true }

def sampleWindow (logs : List (RawLog Nat)) : CurveWindow Nat where
  now := 0
  logs
  answers := List.replicate 20
    { fault := none, head := 0, reached := 0
      ext := { blockTime := id, curveState := sampleCurveState, launched := sampleLaunched } }

theorem sample_traded (blockNumber : Nat) :
    tradedToken sampleBuy sampleTables.listed (sampleLog blockNumber) = some 1 := rfl

def hasStale (t : CurveTables Nat) : Bool :=
  t.trades.isEmpty && t.tokens.any fun token => token.stats.tradeCount = 1

theorem sampleTables_right : sampleTables.References ∧ sampleTables.Right := by
  refine ⟨fun trade htrade => absurd htrade List.not_mem_nil, fun token htoken => ?_⟩
  cases List.mem_singleton.mp htoken
  refine ⟨rfl, rfl, rfl, rfl, fun latest hlatest => ?_⟩
  rw [show tradesOf 1 sampleTables.trades = [] from rfl] at hlatest
  cases hlatest

/-- The only trade of a token is rolled back, and the blocks of the new chain have no log. -/
theorem rolled_back_stale : sampleTables.References ∧ sampleTables.Right ∧
    ∃ t, CurveRun sampleBuy sampleDeps sampleTables
      [.window (sampleWindow [sampleLog 5]), .rollback 4, .window (sampleWindow [])] t ∧ ¬t.Right := by
  refine ⟨sampleTables_right.1, sampleTables_right.2, ?_⟩
  obtain ⟨t, hrun, hstale⟩ : ∃ t, CurveRun sampleBuy sampleDeps sampleTables
      [.window (sampleWindow [sampleLog 5]), .rollback 4, .window (sampleWindow [])] t ∧
        hasStale t = true := Trace.exists_of_any (by decide)
  refine ⟨t, hrun, fun hright => ?_⟩
  simp only [hasStale, Bool.and_eq_true, List.isEmpty_iff, List.any_eq_true,
    decide_eq_true_eq] at hstale
  obtain ⟨hempty, token, htoken, hcount⟩ := hstale
  have hzero := (hright token htoken).tradeCount
  rw [hempty, hcount] at hzero
  cases hzero

def remined : List (CurveOp Nat) :=
  [.window (sampleWindow [sampleLog 5]), .rollback 4, .window (sampleWindow [sampleLog 6])]

theorem run_right_iff_remined :
    ∃ t, CurveRun sampleBuy sampleDeps sampleTables remined t ∧ t.Right := by
  obtain ⟨href, hright⟩ := sampleTables_right
  obtain ⟨t, hrun, -⟩ : ∃ t, CurveRun sampleBuy sampleDeps sampleTables remined t ∧ true = true :=
    @Trace.exists_of_any _ _ _ _ _ (fun _ => true) (by decide)
  refine ⟨t, hrun, (run_right_iff href hright hrun).mpr ?_⟩
  intro ops₁ toBlock ops₂ s₁ hops hfront trade htrade _
  have hid : trade.token = 1 := by
    obtain ⟨haddresses, href'⟩ := CurveRun.kept hfront href
    simpa [haddresses, sampleTables] using href' trade htrade
  rw [hid]
  obtain _ | ⟨_, _ | ⟨_, _ | ⟨_, ops₁⟩⟩⟩ := ops₁
  · cases hops
  · cases hops
    exact ⟨_, List.mem_singleton_self _, sampleLog 6, List.mem_singleton_self _, sample_traded 6⟩
  · cases hops
  · simp [remined] at hops

end sample

end Stunks.Indexer
