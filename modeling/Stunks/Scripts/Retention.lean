import Stunks.Lib.Trace
import Stunks.Scripts.Prune

namespace Stunks.Scripts

structure Store where
  ever : List TradeRow
  rows : List TradeRow
  db : Aggregates
  pending : List Statement
  pruning : Option (PruneRun × Int)

inductive Event
  | index (trades : List TradeRow)
  | startRollup
  | statement
  | killRollup
  | startPrune (p : PruneRun)
  | deleteChunk
  | stopPrune

def Event.interrupts : Event → Prop
  | .killRollup => True
  | .startPrune _ => True
  | _ => False

namespace Store

def fresh (table : TradeTable) : Store where
  ever := table.rows
  rows := table.rows
  db := .empty
  pending := []
  pruning := none

inductive Happens : Store → Event → Store → Prop
  | index {s : Store} {trades : List TradeRow} : ((s.ever ++ trades).map (·.id)).Nodup →
      (∀ t ∈ chainTrades trades, ∀ u ∈ chainTrades s.ever, u.timestamp ≤ t.timestamp) →
      Happens s (.index trades) { s with ever := s.ever ++ trades, rows := s.rows ++ trades }
  | startRollup {s : Store} : s.pending = [] →
      Happens s .startRollup { s with pending := statements true s.rows s.db }
  | statement {s : Store} {stmt : Statement} {rest : List Statement} : s.pending = stmt :: rest →
      Happens s .statement { s with db := stmt.exec s.rows s.db, pending := rest }
  | killRollup {s : Store} : Happens s .killRollup { s with pending := [] }
  | startPrune {s : Store} {p : PruneRun} {built : Int} : s.pruning = none → p.apply →
      builtThrough s.db = some built →
      Happens s (.startPrune p) { s with pruning := some (p, p.cutoff built) }
  | deleteChunk {s : Store} {p : PruneRun} {cutoff : Int} : s.pruning = some (p, cutoff) →
      Happens s .deleteChunk
        { s with rows := deleteMany s.rows (findBatch (p.doomed cutoff) s.rows) }
  | stopPrune {s : Store} : Happens s .stopPrune { s with pruning := none }

/-- The rollup stands between the candles and the snapshots of a batch with trades in it. -/
def Between (s : Store) : Prop :=
  ∃ batch rest, s.pending = .snapshots batch :: rest ∧ selected s.rows batch ≠ []

def Apart (s : Store) (e : Event) (s' : Store) : Prop :=
  Happens s e s' ∧ (e.interrupts → ¬Between s)

inductive Ahead (ever : List TradeRow) : Int → Int → List Statement → Prop
  | batches {n cursor completeThrough : Int} : (cursor < completeThrough → cursor = n) →
      Aligned completeThrough → (∃ u ∈ chainTrades ever, completeThrough ≤ u.timestamp) →
      Ahead ever n n (statementsOf (Scripts.batches cursor completeThrough))
  | snapshots {n completeThrough : Int} : n < completeThrough → Aligned completeThrough →
      (∃ u ∈ chainTrades ever, completeThrough ≤ u.timestamp) →
      Ahead ever n (min (n + hoursPerBatch * hour) completeThrough)
        (.snapshots (n, min (n + hoursPerBatch * hour) completeThrough) ::
          statementsOf (Scripts.batches (n + hoursPerBatch * hour) completeThrough))

/-- The aggregates are those of every trade ever indexed, the snapshots up to `n` and the candles up
to `c`, and no trade is gone, or about to go, that the snapshots do not count. -/
structure Frontier (s : Store) (n c : Int) : Prop where
  ids : (s.ever.map (·.id)).Nodup
  kept : s.rows.Sublist s.ever
  gone : ∀ t ∈ s.ever, t ∉ s.rows → t ∈ chainTrades s.ever ∧ t.timestamp < n
  aligned : Aligned n
  alignedCandles : Aligned c
  candles : RowsTo (candleRow s.ever) s.ever s.db.candles c
  snapshots : RowsTo (snapshotRow s.ever) s.ever s.db.snapshots n
  keys : (s.db.snapshots.map snapshotKey).Nodup
  newest : ∃ u ∈ chainTrades s.ever, c ≤ u.timestamp
  ahead : Ahead s.ever n c s.pending
  cutoff : ∀ p cutoff, s.pruning = some (p, cutoff) →
    ∃ t ∈ chainTrades s.ever, t.timestamp < n ∧ cutoff ≤ hourOf t.timestamp + hour

end Store

theorem rollupRange_latest {rows : List TradeRow} {db : Aggregates} {start completeThrough : Int}
    (h : rollupRange rows db = some (start, completeThrough)) :
    Aligned completeThrough ∧ ∃ t ∈ chainTrades rows, completeThrough ≤ t.timestamp := by
  refine ⟨(rollupRange_eq h).1, ?_⟩
  simp only [rollupRange, Option.bind_eq_bind, Option.bind_eq_some_iff, Option.pure_def,
    Option.some.injEq, Prod.mk.injEq] at h
  obtain ⟨-, -, latest, hmax, -, rfl⟩ := h
  obtain ⟨t, ht, rfl⟩ := List.mem_map.mp (List.max?_mem hmax)
  refine ⟨t, ht, ?_⟩
  unfold hourOf hour
  omega

theorem Store.Ahead.cases {ever : List TradeRow} {n c : Int} {ss : List Statement}
    (h : Store.Ahead ever n c ss) :
    c = n ∨ ∃ batch rest, ss = .snapshots batch :: rest ∧ batch.1 = n ∧ batch.2 = c ∧ n ≤ c := by
  cases h with
  | batches => exact .inl rfl
  | snapshots hlt =>
    exact .inr ⟨_, _, rfl, rfl, rfl, le_min (by unfold hoursPerBatch hour; omega) hlt.le⟩

theorem Store.Ahead.of_snapshots {ever : List TradeRow} {n c : Int} {batch : Int × Int}
    {rest : List Statement} (h : Store.Ahead ever n c (.snapshots batch :: rest)) :
    n = batch.1 ∧ batch.2 = c := by
  generalize hss : Statement.snapshots batch :: rest = ss at h
  cases h with
  | @batches cursor completeThrough =>
    unfold Scripts.batches at hss
    split at hss
    · cases hss
    · cases hss
  | snapshots =>
    cases hss
    exact ⟨rfl, rfl⟩

theorem Store.Ahead.le {ever : List TradeRow} {n c : Int} {ss : List Statement}
    (h : Store.Ahead ever n c ss) : n ≤ c := by
  obtain rfl | ⟨-, -, -, -, -, hle⟩ := h.cases
  · exact le_rfl
  · exact hle

theorem Store.Ahead.mono {ever ever' : List TradeRow} {n c : Int} {ss : List Statement}
    (h : Store.Ahead ever n c ss) (hmem : ∀ {t}, t ∈ chainTrades ever → t ∈ chainTrades ever') :
    Store.Ahead ever' n c ss := by
  cases h with
  | batches hcursor haligned hlatest =>
    obtain ⟨u, hu, hle⟩ := hlatest
    exact .batches hcursor haligned ⟨u, hmem hu, hle⟩
  | snapshots hlt haligned hlatest =>
    obtain ⟨u, hu, hle⟩ := hlatest
    exact .snapshots hlt haligned ⟨u, hmem hu, hle⟩

theorem Store.Ahead.idle {ever : List TradeRow} {n : Int} (hn : Aligned n)
    (hlatest : ∃ u ∈ chainTrades ever, n ≤ u.timestamp) : Store.Ahead ever n n [] := by
  have hnone : statementsOf (Scripts.batches n n) = [] := by
    rw [Scripts.batches, if_neg (lt_irrefl n)]
    rfl
  exact hnone ▸ .batches (fun h => absurd h (lt_irrefl n)) hn hlatest

theorem filter_eq_of_sublist {α : Type} {l l' : List α} {p : α → Bool} (h : l.Sublist l')
    (hn : l'.Nodup) (hp : ∀ a ∈ l', p a = true → a ∈ l) : l.filter p = l'.filter p := by
  induction h with
  | slnil => rfl
  | @cons l l' a hsub ih =>
    obtain ⟨ha, hn⟩ := List.nodup_cons.mp hn
    have hfalse : p a = false := by
      by_contra htrue
      exact ha (hsub.subset (hp a List.mem_cons_self (Bool.eq_true_of_not_eq_false htrue)))
    rw [List.filter_cons_of_neg (by simp [hfalse])]
    exact ih hn fun b hb => hp b (List.mem_cons_of_mem _ hb)
  | @cons_cons l l' a hsub ih =>
    obtain ⟨ha, hn⟩ := List.nodup_cons.mp hn
    have hrest : l.filter p = l'.filter p := by
      refine ih hn fun b hb hpb => ?_
      refine (List.mem_cons.mp (hp b (List.mem_cons_of_mem _ hb) hpb)).resolve_left ?_
      rintro rfl
      exact ha hb
    rw [List.filter_cons, List.filter_cons, hrest]

section Append

variable {rows trades : List TradeRow} {b : Int}

theorem chainTrades_append : chainTrades (rows ++ trades) = chainTrades rows ++ chainTrades trades :=
  List.filter_append ..

theorem mem_chainTrades {t : TradeRow} :
    t ∈ chainTrades rows ↔ t ∈ rows ∧ t.chainId = robinhoodChainId := by
  simp [chainTrades]

theorem group_append {κ : Type} [DecidableEq κ] {key : TradeRow → κ}
    (hkey : ∀ t u, key t = key u → hourOf t.timestamp = hourOf u.timestamp) (hb : Aligned b)
    (hlate : ∀ t ∈ chainTrades trades, b ≤ t.timestamp) {t : TradeRow} (ht : t.timestamp < b) :
    ((chainTrades (rows ++ trades)).filter fun u => key u = key t) =
      (chainTrades rows).filter fun u => key u = key t := by
  have hnone : ((chainTrades trades).filter fun u => key u = key t) = [] := by
    refine List.filter_eq_nil_iff.mpr fun u hu hkeys => ?_
    have hhour := hkey u t (of_decide_eq_true hkeys)
    have hu' := hb.le_hourOf_iff (t := u.timestamp)
    have ht' := hb.le_hourOf_iff (t := t.timestamp)
    have := hlate u hu
    omega
  rw [chainTrades_append, List.filter_append, hnone, List.append_nil]

theorem RowsTo.append {ρ : Type} {row : List TradeRow → TradeRow → ρ} {table : List ρ}
    (h : RowsTo (row rows) rows table b) (hlate : ∀ t ∈ chainTrades trades, b ≤ t.timestamp)
    (hrow : ∀ t, t.timestamp < b → row (rows ++ trades) t = row rows t) :
    RowsTo (row (rows ++ trades)) (rows ++ trades) table b := by
  constructor
  · intro t ht hlt
    rw [hrow t hlt]
    rw [chainTrades_append] at ht
    cases List.mem_append.mp ht with
    | inl ht => exact h.covered t ht hlt
    | inr ht => exact absurd hlt (not_lt.mpr (hlate t ht))
  · intro r hr
    obtain ⟨t, ht, rfl, hlt⟩ := h.only r hr
    rw [chainTrades_append]
    exact ⟨t, List.mem_append_left _ ht, (hrow t hlt).symm, hlt⟩

end Append

section Lower

variable {rows : List TradeRow} {db : Aggregates} {b built start completeThrough : Int}

theorem BuiltTo.lt_built (h : BuiltTo rows db b) (hb : builtThrough db = some built) {t : TradeRow}
    (ht : t ∈ chainTrades rows) (hlt : t.timestamp < b) :
    hourOf t.timestamp ≤ built ∧ t.timestamp < built + hour := by
  obtain ⟨built', hb', hle⟩ := le_builtThrough (h.candles.covered t ht hlt) rfl
  obtain rfl : built = built' := Option.some.inj (hb.symm.trans hb')
  have hopen : (candleRow rows t).openTime = hourOf t.timestamp := rfl
  have := lt_hourOf_add t.timestamp
  omega

theorem BuiltTo.none_lt (h : BuiltTo rows db b) (hb : builtThrough db = none) {t : TradeRow}
    (ht : t ∈ chainTrades rows) : b ≤ t.timestamp := by
  by_contra hlt
  obtain ⟨built, hb', -⟩ := le_builtThrough (h.candles.covered t ht (not_le.mp hlt)) rfl
  cases hb.symm.trans hb'

theorem RowsTo.move {ρ : Type} {row : TradeRow → ρ} {table : List ρ} {b' : Int}
    (h : RowsTo row rows table b)
    (hsame : ∀ t ∈ chainTrades rows, t.timestamp < b' ↔ t.timestamp < b) :
    RowsTo row rows table b' := by
  constructor
  · intro t ht hlt
    exact h.covered t ht ((hsame t ht).mp hlt)
  · intro r hr
    obtain ⟨t, ht, rfl, hlt⟩ := h.only r hr
    exact ⟨t, ht, rfl, (hsame t ht).mpr hlt⟩

theorem BuiltTo.built_le (h : BuiltTo rows db b) (hb : builtThrough db = some built) :
    ∃ t ∈ chainTrades rows, t.timestamp < b ∧ built = hourOf t.timestamp ∧ built + hour ≤ b := by
  obtain ⟨c, hc, rfl⟩ := builtThrough_mem hb
  obtain ⟨t, ht, rfl, hlt⟩ := h.candles.only c hc
  have hopen : (candleRow rows t).openTime = hourOf t.timestamp := rfl
  have haligned := h.aligned
  refine ⟨t, ht, hlt, hopen, ?_⟩
  rw [hopen]
  unfold Aligned hourOf hour at *
  omega

end Lower

namespace Store

variable {s s' : Store} {n c : Int}

namespace Frontier

theorem selected_eq (h : Frontier s n c) {batch : Int × Int} (hlo : n ≤ batch.1) :
    selected s.rows batch = selected s.ever batch := by
  refine filter_eq_of_sublist h.kept (List.Nodup.of_map _ h.ids) fun t ht hsel => ?_
  by_contra hgone
  have hlt := (h.gone t ht hgone).2
  have hbounds := of_decide_eq_true hsel
  omega

theorem builtTo (h : Frontier s n c) (hbetween : ¬Between s) : BuiltTo s.ever s.db n := by
  refine ⟨h.aligned, ?_, h.snapshots⟩
  obtain rfl | ⟨batch, rest, hpending, rfl, rfl, hle⟩ := h.ahead.cases
  · exact h.candles
  · refine h.candles.move fun t ht => ⟨fun hlt => lt_of_lt_of_le hlt hle, fun hlt => ?_⟩
    by_contra hlo
    refine hbetween ⟨batch, rest, hpending, List.ne_nil_of_mem (a := t) ?_⟩
    rw [h.selected_eq le_rfl]
    exact mem_selected.mpr ⟨ht, not_lt.mp hlo, hlt⟩

theorem index (h : Frontier s n c) {trades : List TradeRow}
    (hids : ((s.ever ++ trades).map (·.id)).Nodup)
    (horder : ∀ t ∈ chainTrades trades, ∀ u ∈ chainTrades s.ever, u.timestamp ≤ t.timestamp) :
    Frontier { s with ever := s.ever ++ trades, rows := s.rows ++ trades } n c := by
  obtain ⟨u, hu, hcu⟩ := h.newest
  have hlate : ∀ t ∈ chainTrades trades, c ≤ t.timestamp := fun t ht => hcu.trans (horder t ht u hu)
  have hlateN : ∀ t ∈ chainTrades trades, n ≤ t.timestamp := fun t ht => h.ahead.le.trans (hlate t ht)
  have hmem : ∀ {t}, t ∈ chainTrades s.ever → t ∈ chainTrades (s.ever ++ trades) := fun ht =>
    chainTrades_append ▸ List.mem_append_left _ ht
  refine ⟨hids, h.kept.append (List.Sublist.refl _), ?_, h.aligned, h.alignedCandles, ?_, ?_, h.keys,
    ⟨u, hmem hu, hcu⟩, h.ahead.mono hmem, ?_⟩
  · intro t ht hgone
    simp only [List.mem_append, not_or] at ht hgone
    obtain ⟨hchain, hlt⟩ := h.gone t (ht.resolve_right hgone.2) hgone.1
    exact ⟨hmem hchain, hlt⟩
  · refine h.candles.append hlate fun t ht => ?_
    rw [candleRow, candleRow, group_append candleGroup_hour h.alignedCandles hlate ht]
  · refine h.snapshots.append hlateN fun t ht => ?_
    rw [snapshotRow, snapshotRow, group_append snapshotGroup_hour h.aligned hlateN ht]
  · intro p cutoff hp
    obtain ⟨t, ht, hlt, hle⟩ := h.cutoff p cutoff hp
    exact ⟨t, hmem ht, hlt, hle⟩

theorem killRollup (h : Frontier s n c) (hbetween : ¬Between s) :
    Frontier { s with pending := [] } n n := by
  have hbuilt := h.builtTo hbetween
  obtain ⟨u, hu, hcu⟩ := h.newest
  have hnu := h.ahead.le.trans hcu
  exact ⟨h.ids, h.kept, h.gone, h.aligned, h.aligned, hbuilt.candles, hbuilt.snapshots, h.keys,
    ⟨u, hu, hnu⟩, .idle h.aligned ⟨u, hu, hnu⟩, h.cutoff⟩

theorem startPrune (h : Frontier s n c) (hbetween : ¬Between s) {p : PruneRun} {built : Int}
    (hb : builtThrough s.db = some built) :
    Frontier { s with pruning := some (p, p.cutoff built) } n c := by
  refine ⟨h.ids, h.kept, h.gone, h.aligned, h.alignedCandles, h.candles, h.snapshots, h.keys,
    h.newest, h.ahead, ?_⟩
  intro p' cutoff hp
  obtain ⟨rfl, rfl⟩ := Prod.mk.inj (Option.some.inj hp)
  obtain ⟨t, ht, hlt, rfl, -⟩ := (h.builtTo hbetween).built_le hb
  exact ⟨t, ht, hlt, p.cutoff_le _⟩

theorem cutoff_le (h : Frontier s n c) {p : PruneRun} {cutoff : Int}
    (hp : s.pruning = some (p, cutoff)) : cutoff ≤ n := by
  obtain ⟨t, -, hlt, hle⟩ := h.cutoff p cutoff hp
  have haligned := h.aligned
  unfold Aligned hourOf hour at *
  omega

theorem deleteChunk (h : Frontier s n c) {p : PruneRun} {cutoff : Int}
    (hp : s.pruning = some (p, cutoff)) :
    Frontier { s with rows := deleteMany s.rows (findBatch (p.doomed cutoff) s.rows) } n c := by
  refine ⟨h.ids, List.filter_sublist.trans h.kept, ?_, h.aligned, h.alignedCandles, h.candles,
    h.snapshots, h.keys, h.newest, h.ahead, h.cutoff⟩
  intro t ht hgone
  by_cases hrow : t ∈ s.rows
  · have hids := h.ids.sublist (h.kept.map (·.id))
    have hdoomed := (mem_findBatch
      (mem_batch_of_deleted hids (fun u hu => (mem_findBatch hu).1) hrow hgone)).2
    simp only [PruneRun.doomed, decide_eq_true_eq] at hdoomed
    have := h.cutoff_le hp
    exact ⟨mem_chainTrades.mpr ⟨ht, hdoomed.1⟩, by omega⟩
  · exact h.gone t ht hrow

theorem stopPrune (h : Frontier s n c) : Frontier { s with pruning := none } n c :=
  ⟨h.ids, h.kept, h.gone, h.aligned, h.alignedCandles, h.candles, h.snapshots, h.keys, h.newest,
    h.ahead, nofun⟩

theorem exec_eq (h : Frontier s n c) {stmt : Statement} (hlo : n ≤ stmt.batch.1) :
    stmt.exec s.rows s.db = stmt.exec s.ever s.db := by
  cases stmt with
  | candles batch =>
    simp only [Statement.exec, h.selected_eq (show n ≤ batch.1 from hlo)]
  | snapshots batch =>
    simp only [Statement.exec, h.selected_eq (show n ≤ batch.1 from hlo)]

theorem candlesStatement {completeThrough : Int} (h : Frontier s n n) (hlt : n < completeThrough)
    (haligned : Aligned completeThrough)
    (hlatest : ∃ u ∈ chainTrades s.ever, completeThrough ≤ u.timestamp) :
    let batchEnd := min (n + hoursPerBatch * hour) completeThrough
    Frontier { s with
      db := (Statement.candles (n, batchEnd)).exec s.rows s.db
      pending := .snapshots (n, batchEnd) ::
        statementsOf (Scripts.batches (n + hoursPerBatch * hour) completeThrough) } n batchEnd := by
  intro batchEnd
  have hend : Aligned batchEnd := h.aligned.batchEnd haligned
  have hle : n ≤ batchEnd := le_min (by unfold hoursPerBatch hour; omega) hlt.le
  have hbuilt : BuiltTo s.ever s.db n := ⟨h.aligned, h.candles, h.snapshots⟩
  obtain ⟨u, hu, hcu⟩ := hlatest
  refine ⟨h.ids, h.kept, h.gone, h.aligned, hend, ?_, ?_, ?_, ⟨u, hu, (min_le_right ..).trans hcu⟩,
    .snapshots hlt haligned ⟨u, hu, hcu⟩, h.cutoff⟩
  · show RowsTo _ _ ((Statement.candles (n, batchEnd)).exec s.rows s.db).candles batchEnd
    rw [h.exec_eq (show n ≤ (Statement.candles (n, batchEnd)).batch.1 from le_rfl)]
    have hrows := @BuiltTo.exec_candles s.ever s.db n (n, batchEnd) hbuilt le_rfl h.aligned hend
    rwa [max_eq_right hle] at hrows
  · exact h.snapshots
  · exact h.keys

theorem snapshotsStatement {batchEnd : Int} {rest : List Statement} (h : Frontier s n batchEnd)
    (hle : n ≤ batchEnd) (hrest : Ahead s.ever batchEnd batchEnd rest) :
    Frontier { s with
      db := (Statement.snapshots (n, batchEnd)).exec s.rows s.db
      pending := rest } batchEnd batchEnd := by
  refine ⟨h.ids, h.kept, ?_, h.alignedCandles, h.alignedCandles, h.candles, ?_, ?_, h.newest, hrest,
    ?_⟩
  · intro t ht hgone
    obtain ⟨hchain, hlt⟩ := h.gone t ht hgone
    exact ⟨hchain, lt_of_lt_of_le hlt hle⟩
  · show RowsTo _ _ ((Statement.snapshots (n, batchEnd)).exec s.rows s.db).snapshots batchEnd
    rw [h.exec_eq (show n ≤ (Statement.snapshots (n, batchEnd)).batch.1 from le_rfl)]
    have hrows := h.snapshots.upsertMany snapshotRow_of_key le_rfl
      (@mem_snapshotRows s.ever (n, batchEnd) h.aligned h.alignedCandles)
    rwa [max_eq_right hle] at hrows
  · exact Table.nodup_upsertMany h.keys
  · intro p cutoff hp
    obtain ⟨t, ht, hlt, hcut⟩ := h.cutoff p cutoff hp
    exact ⟨t, ht, lt_of_lt_of_le hlt hle, hcut⟩

theorem statement (h : Frontier s n c) {stmt : Statement} {rest : List Statement}
    (hp : s.pending = stmt :: rest) :
    ∃ n' c', Frontier { s with db := stmt.exec s.rows s.db, pending := rest } n' c' := by
  have hahead := h.ahead
  rw [hp] at hahead
  generalize hss : stmt :: rest = ss at hahead
  cases hahead with
  | @batches cursor completeThrough hcursor haligned hlatest =>
    by_cases hlt : cursor < completeThrough
    · obtain rfl := hcursor hlt
      rw [Scripts.batches, if_pos hlt] at hss
      obtain ⟨rfl, rfl⟩ := List.cons.inj hss
      exact ⟨_, _, h.candlesStatement hlt haligned hlatest⟩
    · rw [Scripts.batches, if_neg hlt] at hss
      cases hss
  | snapshots hlt haligned hlatest =>
    obtain ⟨rfl, rfl⟩ := List.cons.inj hss
    refine ⟨_, _, h.snapshotsStatement h.ahead.le (.batches (fun hmore => ?_) haligned hlatest)⟩
    exact (min_eq_left hmore.le).symm

theorem start_eq (h : Frontier s n n) {start completeThrough : Int}
    (hr : rollupRange s.rows s.db = some (start, completeThrough)) :
    Aligned start ∧ ∀ t ∈ chainTrades s.ever, t.timestamp < start ↔ t.timestamp < n := by
  have hbuilt : BuiltTo s.ever s.db n := ⟨h.aligned, h.candles, h.snapshots⟩
  obtain ⟨-, ⟨built, hb, rfl⟩ | ⟨earliest, hb, hmin, rfl⟩⟩ := rollupRange_eq hr
  · obtain ⟨t, -, -, rfl, hle⟩ := hbuilt.built_le hb
    refine ⟨?_, fun u hu => ⟨fun hlt => lt_of_lt_of_le hlt hle, fun hlt => ?_⟩⟩
    · unfold Aligned hourOf hour
      omega
    · exact (hbuilt.lt_built hb hu hlt).2
  · have hnone : ∀ t ∈ chainTrades s.ever, n ≤ t.timestamp := fun t ht => hbuilt.none_lt hb ht
    refine ⟨hourOf_aligned earliest, fun t ht => ⟨fun hlt => ?_, fun hlt => ?_⟩⟩
    · obtain ⟨hmem, hchain⟩ := mem_chainTrades.mp ht
      have hrow : t ∈ s.rows := by
        by_contra hgone
        exact absurd (h.gone t hmem hgone).2 (not_lt.mpr (hnone t ht))
      have := hmin t (mem_chainTrades.mpr ⟨hrow, hchain⟩)
      have hhour : hourOf earliest ≤ earliest := by
        unfold hourOf hour
        omega
      omega
    · exact absurd hlt (not_lt.mpr (hnone t ht))

theorem begin {pending : List Statement} (h : Frontier s n n) {b : Int} (hb : Aligned b)
    (hsame : ∀ t ∈ chainTrades s.ever, t.timestamp < b ↔ t.timestamp < n)
    (hnewest : ∃ u ∈ chainTrades s.ever, b ≤ u.timestamp) (hahead : Ahead s.ever b b pending) :
    Frontier { s with pending } b b := by
  refine ⟨h.ids, h.kept, ?_, hb, hb, h.candles.move hsame, h.snapshots.move hsame, h.keys, hnewest,
    hahead, ?_⟩
  · intro t ht hgone
    obtain ⟨hchain, hlt⟩ := h.gone t ht hgone
    exact ⟨hchain, (hsame t hchain).mpr hlt⟩
  · intro p cutoff hp
    obtain ⟨t, ht, hlt, hle⟩ := h.cutoff p cutoff hp
    exact ⟨t, ht, (hsame t ht).mpr hlt, hle⟩

theorem startRollup (h : Frontier s n c) (hidle : s.pending = []) :
    ∃ n' c', Frontier { s with pending := statements true s.rows s.db } n' c' := by
  have hbetween : ¬Between s := by simp [Between, hidle]
  have hlevel : Frontier s n n := by
    have hkill := h.killRollup hbetween
    rwa [← hidle] at hkill
  cases hr : rollupRange s.rows s.db with
  | none =>
    refine ⟨n, n, ?_⟩
    simp only [statements, hr]
    exact hlevel.killRollup hbetween
  | some range =>
    obtain ⟨start, completeThrough⟩ := range
    rw [statements_eq hr]
    by_cases hlt : start < completeThrough
    · obtain ⟨hstart, hsame⟩ := hlevel.start_eq hr
      obtain ⟨haligned, u, hu, hle⟩ := rollupRange_latest hr
      have hlatest : ∃ u ∈ chainTrades s.ever, completeThrough ≤ u.timestamp := by
        obtain ⟨hmem, hchain⟩ := mem_chainTrades.mp hu
        exact ⟨u, mem_chainTrades.mpr ⟨h.kept.subset hmem, hchain⟩, hle⟩
      obtain ⟨u, hu, hle⟩ := hlatest
      exact ⟨_, _, hlevel.begin hstart hsame ⟨u, hu, hlt.le.trans hle⟩
        (.batches (fun _ => rfl) haligned ⟨u, hu, hle⟩)⟩
    · refine ⟨n, n, ?_⟩
      rw [Scripts.batches, if_neg hlt]
      exact hlevel.killRollup hbetween

end Frontier

def Kept (s : Store) : Prop := ∃ n c, Frontier s n c

theorem Kept.step {e : Event} (h : Kept s) (hs : Apart s e s') : Kept s' := by
  obtain ⟨n, c, h⟩ := h
  obtain ⟨hs, hbetween⟩ := hs
  cases hs with
  | index hids horder => exact ⟨n, c, h.index hids horder⟩
  | startRollup hidle => exact h.startRollup hidle
  | statement hp => exact h.statement hp
  | killRollup => exact ⟨n, n, h.killRollup (hbetween trivial)⟩
  | startPrune _ _ hb => exact ⟨n, c, h.startPrune (hbetween trivial) hb⟩
  | deleteChunk hp => exact ⟨n, c, h.deleteChunk hp⟩
  | stopPrune => exact ⟨n, c, h.stopPrune⟩

theorem kept_fresh {table : TradeTable} (h : chainTrades table.rows ≠ []) : Kept (fresh table) := by
  obtain ⟨earliest, hmin⟩ : ∃ earliest,
      ((chainTrades table.rows).map (·.timestamp)).min? = some earliest := by
    refine Option.ne_none_iff_exists'.mp (mt List.min?_eq_none_iff.mp ?_)
    simpa using h
  have hfloor : ∀ t ∈ chainTrades table.rows, hourOf earliest ≤ t.timestamp := by
    intro t ht
    have := chainTrades_min hmin ht
    unfold hourOf hour
    omega
  have hbuilt := builtTo_empty (hourOf_aligned earliest) hfloor
  obtain ⟨u, hu⟩ := List.exists_mem_of_ne_nil _ h
  have hnewest : ∃ u ∈ chainTrades table.rows, hourOf earliest ≤ u.timestamp := ⟨u, hu, hfloor u hu⟩
  exact ⟨_, _, table.primaryKey, List.Sublist.refl _, fun t ht hgone => absurd ht hgone,
    hbuilt.aligned, hbuilt.aligned, hbuilt.candles, hbuilt.snapshots, List.nodup_nil, hnewest,
    .idle hbuilt.aligned hnewest, nofun⟩

theorem kept_run {table : TradeTable} (h : chainTrades table.rows ≠ []) {es : List Event}
    (hrun : Trace Apart (fresh table) es s) : Kept s :=
  hrun.invariant (I := Kept) (fun hi hs => hi.step hs) (kept_fresh h)

def Counted (s : Store) (t : TradeRow) : Prop := ∃ v ∈ s.db.snapshots, snapshotKey v = snapshotGroup t

structure Lost (s : Store) (t : TradeRow) : Prop where
  indexed : t ∈ chainTrades s.ever
  gone : t ∉ s.rows
  uncounted : ∀ {es s'}, Trace Happens s es s' → ¬Counted s' t

structure Emptied (s : Store) (t : TradeRow) : Prop where
  uncounted : ¬Counted s t
  rows : ∀ u ∈ chainTrades s.rows, snapshotGroup u ≠ snapshotGroup t
  passed : ∃ u ∈ chainTrades s.ever, hourOf t.timestamp + hour ≤ u.timestamp

namespace Emptied

variable {t : TradeRow} {e : Event}

theorem statement {stmt : Statement} {rest : List Statement} (h : Emptied s t) :
    Emptied { s with db := stmt.exec s.rows s.db, pending := rest } t := by
  refine ⟨?_, h.rows, h.passed⟩
  rintro ⟨v, hv, hkey⟩
  cases stmt with
  | candles batch => exact h.uncounted ⟨v, hv, hkey⟩
  | snapshots batch =>
    cases Table.of_mem_upsertMany hv with
    | inl hnew =>
      obtain ⟨u, hu, rfl⟩ := Table.mem_groupBy.mp hnew
      exact h.rows u (mem_selected.mp hu).1 hkey
    | inr hold => exact h.uncounted ⟨v, hold, hkey⟩

theorem index {trades : List TradeRow} (h : Emptied s t)
    (horder : ∀ u ∈ chainTrades trades, ∀ v ∈ chainTrades s.ever, v.timestamp ≤ u.timestamp) :
    Emptied { s with ever := s.ever ++ trades, rows := s.rows ++ trades } t := by
  obtain ⟨v, hv, hover⟩ := h.passed
  refine ⟨h.uncounted, ?_, v, chainTrades_append ▸ List.mem_append_left _ hv, hover⟩
  intro u hu hgroup
  rw [chainTrades_append] at hu
  cases List.mem_append.mp hu with
  | inl hu => exact h.rows u hu hgroup
  | inr hu =>
    have hhour := snapshotGroup_hour u t hgroup
    have horder := horder u hu v hv
    have := lt_hourOf_add u.timestamp
    omega

theorem step (h : Emptied s t) (hs : Happens s e s') : Emptied s' t := by
  cases hs with
  | index _ horder => exact h.index horder
  | startRollup => exact ⟨h.uncounted, h.rows, h.passed⟩
  | statement => exact h.statement
  | killRollup => exact ⟨h.uncounted, h.rows, h.passed⟩
  | startPrune => exact ⟨h.uncounted, h.rows, h.passed⟩
  | deleteChunk =>
    refine ⟨h.uncounted, fun u hu => h.rows u ?_, h.passed⟩
    obtain ⟨hmem, hchain⟩ := mem_chainTrades.mp hu
    exact mem_chainTrades.mpr ⟨(List.mem_filter.mp hmem).1, hchain⟩
  | stopPrune => exact ⟨h.uncounted, h.rows, h.passed⟩

theorem lost (h : Emptied s t) (ht : t ∈ chainTrades s.ever) : Lost s t := by
  refine ⟨ht, fun hrow => ?_, fun hrun => ?_⟩
  · exact h.rows t (mem_chainTrades.mpr ⟨hrow, (mem_chainTrades.mp ht).2⟩) rfl
  · exact (hrun.invariant (I := fun s => Emptied s t) (fun hi hs => hi.step hs) h).uncounted

end Emptied

theorem pruneAll_cutoff (built : Int) : (pruneAll built).cutoff built = built + hour := by
  show (if built + 2 * hour - 1 * hour < built + hour then _ else built + hour) = built + hour
  exact if_neg (by omega)

theorem deleteChunks {p : PruneRun} {cutoff : Int} (hp : s.pruning = some (p, cutoff)) :
    ∃ es rows, Trace Apart s es { s with rows } ∧ (∀ t ∈ rows, t ∈ s.rows) ∧
      ∀ t ∈ rows, p.doomed cutoff t = false := by
  induction hlen : s.rows.length using Nat.strong_induction_on generalizing s with
  | h len ih =>
    by_cases hempty : findBatch (p.doomed cutoff) s.rows = []
    · refine ⟨[], s.rows, .nil, fun t ht => ht, fun t ht => ?_⟩
      have hnone : s.rows.filter (p.doomed cutoff) = [] := by
        have hchunk : chunk ≠ 0 := by decide
        simpa [findBatch, hchunk] using hempty
      exact Bool.eq_false_iff.mpr (List.filter_eq_nil_iff.mp hnone t ht)
    · have hlt := deleteMany_length_lt (fun t ht => (mem_findBatch ht).1) hempty
      obtain ⟨es, rows, hrun, hsub, hdone⟩ := ih _ (hlen ▸ hlt)
        (s := { s with rows := deleteMany s.rows (findBatch (p.doomed cutoff) s.rows) }) hp rfl
      refine ⟨.deleteChunk :: es, rows, .cons ⟨.deleteChunk hp, False.elim⟩ hrun, ?_, hdone⟩
      exact fun t ht => (List.mem_filter.mp (hsub t ht)).1

/-- A prune that begins in a half-built batch deletes its trades before they are counted. -/
theorem Frontier.lost_of_between (h : Frontier s n c) (hidle : s.pruning = none)
    (hbetween : Between s) : ∃ p s₁ es s₂ t, Happens s (.startPrune p) s₁ ∧ Trace Apart s₁ es s₂ ∧
      Lost s₂ t := by
  obtain ⟨batch, rest, hp, hne⟩ := hbetween
  obtain ⟨t, ht⟩ := List.exists_mem_of_ne_nil _ hne
  obtain ⟨htrade, hlo, hhi⟩ := mem_selected.mp ht
  obtain ⟨hn, hc⟩ := (hp ▸ h.ahead).of_snapshots
  have hever : t ∈ chainTrades s.ever := by
    obtain ⟨hmem, hchain⟩ := mem_chainTrades.mp htrade
    exact mem_chainTrades.mpr ⟨h.kept.subset hmem, hchain⟩
  obtain ⟨built, hb, hle⟩ := le_builtThrough (h.candles.covered t hever (by omega)) rfl
  have hopen : (candleRow s.ever t).openTime = hourOf t.timestamp := rfl
  have hstart : Happens s (.startPrune (pruneAll built)) _ := .startPrune hidle rfl hb
  obtain ⟨es, rows, hrun, hsub, hdone⟩ := @deleteChunks
    { s with pruning := some (pruneAll built, (pruneAll built).cutoff built) } _ _ rfl
  refine ⟨_, _, es, _, t, hstart, hrun, Emptied.lost ⟨?_, ?_, ?_⟩ hever⟩
  · rintro ⟨v, hv, hkey⟩
    obtain ⟨u, -, rfl, hu⟩ := h.snapshots.only v hv
    have hhour := snapshotGroup_hour u t hkey
    have hu' := h.aligned.le_hourOf_iff (t := u.timestamp)
    have ht' := h.aligned.le_hourOf_iff (t := t.timestamp)
    omega
  · intro u hu hgroup
    obtain ⟨hmem, hchain⟩ := mem_chainTrades.mp hu
    have hhour := snapshotGroup_hour u t hgroup
    have := lt_hourOf_add u.timestamp
    have hdoomed := hdone u hmem
    rw [pruneAll_cutoff] at hdoomed
    refine absurd hdoomed (Bool.not_eq_false _ ▸ ?_)
    exact decide_eq_true ⟨hchain, by omega, List.not_mem_nil⟩
  · obtain ⟨u, hu, hcu⟩ := h.newest
    have hc' := h.alignedCandles
    refine ⟨u, hu, ?_⟩
    show hourOf t.timestamp + hour ≤ u.timestamp
    unfold Aligned hourOf hour at *
    omega

end Store

theorem twoHours_statements : statements true twoHours.rows .empty =
    [.candles (0, 3600000), .snapshots (0, 3600000)] := by
  have hrange : rollupRange twoHours.rows .empty = some (0, 3600000) := by decide
  rw [statements_eq hrange, batches, if_pos (by decide), batches, if_neg (by decide)]
  rfl

namespace Store

end Store

end Stunks.Scripts
