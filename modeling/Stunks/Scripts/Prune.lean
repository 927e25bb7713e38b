import Stunks.Scripts.Rollup

/-! `prune-trades.ts`: old trades deleted, up to where the candles reach. -/

namespace Stunks.Scripts

def chunk : Nat := 20000

structure TokenRow where
  id : Nat
  chainId : Nat
  trendingScore : Nat

/-- One run: its arguments, its clock, the scores it reads, and which `VACUUM`s succeed. -/
structure PruneRun where
  apply : Bool
  hours : Int
  hours_pos : 0 < hours
  keepTrending : Nat
  now : Int
  tokens : List TokenRow
  vacuum : Nat → Bool

namespace PruneRun

def exemptIds (p : PruneRun) : List Nat :=
  let scored := p.tokens.filter fun token =>
    token.chainId = robinhoodChainId ∧ token.trendingScore > 0
  ((scored.insertionSort fun a b => a.trendingScore ≥ b.trendingScore).take p.keepTrending).map
    (·.id)

def cutoff (p : PruneRun) (built : Int) : Int :=
  let rolledThrough := built + hour
  let byRetention := p.now - p.hours * hour
  if byRetention < rolledThrough then byRetention else rolledThrough

def doomed (p : PruneRun) (cutoff : Int) (t : TradeRow) : Bool :=
  t.chainId = robinhoodChainId ∧ t.timestamp < cutoff ∧ t.tokenId ∉ p.exemptIds

end PruneRun

def findBatch (doomed : TradeRow → Bool) (rows : List TradeRow) : List TradeRow :=
  (rows.filter doomed).take chunk

theorem mem_findBatch {doomed : TradeRow → Bool} {rows : List TradeRow} {t : TradeRow}
    (h : t ∈ findBatch doomed rows) : t ∈ rows ∧ doomed t :=
  List.mem_filter.mp (List.mem_of_mem_take h)

def deleteMany (rows batch : List TradeRow) : List TradeRow :=
  rows.filter fun t => t.id ∉ batch.map (·.id)

theorem deleteMany_length_lt {rows batch : List TradeRow} (hsub : batch ⊆ rows) (hne : batch ≠ []) :
    (deleteMany rows batch).length < rows.length := by
  obtain ⟨t, ht⟩ := List.exists_mem_of_ne_nil batch hne
  refine List.length_filter_lt_length_iff_exists.mpr ⟨t, hsub ht, ?_⟩
  simpa using List.mem_map_of_mem (f := (·.id)) ht

def deleteLoop (doomed : TradeRow → Bool) (vacuum : Nat → Bool) (n : Nat) (rows : List TradeRow) :
    List TradeRow :=
  let batch := findBatch doomed rows
  if h : batch.length = 0 then rows
  else if vacuum n then deleteLoop doomed vacuum (n + 1) (deleteMany rows batch)
  else deleteMany rows batch
termination_by rows.length
decreasing_by
  refine deleteMany_length_lt ?_ (mt List.length_eq_zero_iff.mpr h)
  exact fun t ht => (mem_findBatch ht).1

def prune (p : PruneRun) (db : Aggregates) (rows : List TradeRow) : List TradeRow :=
  match builtThrough db with
  | none => rows
  | some built =>
    if (rows.filter (p.doomed (p.cutoff built))).length = 0 then rows
    else if !p.apply then rows
    else deleteLoop (p.doomed (p.cutoff built)) p.vacuum 0 rows

section Delete

variable {rows batch : List TradeRow} {doomed : TradeRow → Bool} {vacuum : Nat → Bool} {n : Nat}
  {t : TradeRow}

theorem mem_batch_of_deleted (hids : (rows.map (·.id)).Nodup) (hsub : batch ⊆ rows) (ht : t ∈ rows)
    (hgone : t ∉ deleteMany rows batch) : t ∈ batch := by
  have hid : t.id ∈ batch.map (·.id) := by
    by_contra hid
    exact hgone (List.mem_filter.mpr ⟨ht, decide_eq_true hid⟩)
  obtain ⟨u, hu, heq⟩ := List.mem_map.mp hid
  rwa [← List.inj_on_of_nodup_map hids (hsub hu) ht heq]

theorem deleteLoop_sound (hids : (rows.map (·.id)).Nodup) (ht : t ∈ rows)
    (hgone : t ∉ deleteLoop doomed vacuum n rows) : doomed t := by
  fun_induction deleteLoop doomed vacuum n rows with
  | case1 => exact absurd ht hgone
  | case2 n rows batch hne hvacuum ih =>
    by_cases hrest : t ∈ deleteMany rows batch
    · exact ih (hids.sublist (List.filter_sublist.map _)) hrest hgone
    · exact (mem_findBatch (mem_batch_of_deleted hids (fun u hu => (mem_findBatch hu).1) ht hrest)).2
  | case3 n rows batch hne hvacuum =>
    exact (mem_findBatch (mem_batch_of_deleted hids (fun u hu => (mem_findBatch hu).1) ht hgone)).2

theorem deleteLoop_complete (hvacuum : ∀ n, vacuum n = true)
    (h : t ∈ deleteLoop doomed vacuum n rows) : doomed t = false := by
  fun_induction deleteLoop doomed vacuum n rows with
  | case1 n rows batch hempty =>
    have hnone : rows.filter doomed = [] := by
      have hchunk : chunk ≠ 0 := by decide
      simpa [batch, findBatch, hchunk] using hempty
    by_contra hdoomed
    have := List.mem_filter.mpr ⟨h, Bool.eq_true_of_not_eq_false hdoomed⟩
    rw [hnone] at this
    cases this
  | case2 n rows batch hne _ ih => exact ih h
  | case3 n rows batch hne hfail => exact absurd (hvacuum n) hfail

end Delete

section Prune

variable {p : PruneRun} {db : Aggregates} {t : TradeRow}

theorem PruneRun.cutoff_le (p : PruneRun) (built : Int) : p.cutoff built ≤ built + hour := by
  unfold PruneRun.cutoff
  simp only
  split <;> omega

theorem prune_sound {table : TradeTable} (ht : t ∈ table.rows)
    (hgone : t ∉ prune p db table.rows) :
    t ∈ chainTrades table.rows ∧
      ∃ built, builtThrough db = some built ∧ t.timestamp < built + hour := by
  unfold prune at hgone
  cases hb : builtThrough db with
  | none =>
    rw [hb] at hgone
    exact absurd ht hgone
  | some built =>
    rw [hb] at hgone
    simp only at hgone
    split at hgone
    · exact absurd ht hgone
    split at hgone
    · exact absurd ht hgone
    have hdoomed := deleteLoop_sound table.primaryKey ht hgone
    simp only [PruneRun.doomed, decide_eq_true_eq] at hdoomed
    have hle := p.cutoff_le built
    exact ⟨List.mem_filter.mpr ⟨ht, decide_eq_true hdoomed.1⟩, built, rfl, by omega⟩

/-- The run that keeps the least: nothing is scored, and retention does not bind. -/
def pruneAll (built : Int) : PruneRun where
  apply := true
  hours := 1
  hours_pos := by decide
  keepTrending := 500
  now := built + 2 * hour
  tokens := []
  vacuum _ := true

theorem prune_all {rows : List TradeRow} {built : Int} (hb : builtThrough db = some built)
    (ht : t ∈ chainTrades rows) (hlt : t.timestamp < built + hour) :
    t ∉ prune (pruneAll built) db rows := by
  obtain ⟨hmem, hchain⟩ := List.mem_filter.mp ht
  have hcutoff : (pruneAll built).cutoff built = built + hour := by
    show (if built + 2 * hour - 1 * hour < built + hour then _ else built + hour) = built + hour
    exact if_neg (by omega)
  have hdoomed : (pruneAll built).doomed (built + hour) t = true := by
    have hid : (pruneAll built).exemptIds = [] := rfl
    simp only [PruneRun.doomed, hid, decide_eq_true_eq]
    exact ⟨of_decide_eq_true hchain, hlt, by simp⟩
  intro hleft
  simp only [prune, hb, hcutoff] at hleft
  split at hleft
  · rename_i hnone
    have := List.mem_filter.mpr ⟨hmem, hdoomed⟩
    rw [List.length_eq_zero_iff.mp hnone] at this
    cases this
  · have := deleteLoop_complete (fun _ => rfl) hleft
    rw [hdoomed] at this
    cases this

theorem BuiltTo.prune_covered {table : TradeTable} {b : Int} (h : BuiltTo table.rows db b)
    (ht : t ∈ table.rows) (hgone : t ∉ prune p db table.rows) : Covered table.rows db t := by
  obtain ⟨hchain, built, hb, hlt⟩ := prune_sound ht hgone
  obtain ⟨c, hc, rfl⟩ := builtThrough_mem hb
  obtain ⟨u, -, rfl, hu⟩ := h.candles.only c hc
  have hopen : (candleRow table.rows u).openTime = hourOf u.timestamp := rfl
  have hhour := h.aligned.le_hourOf_iff (t := u.timestamp)
  have haligned := h.aligned
  have hlt : t.timestamp < b := by
    rw [hopen] at hlt
    unfold Aligned hourOf hour at *
    omega
  exact ⟨h.candles.covered t hchain hlt, h.snapshots.covered t hchain hlt⟩

theorem Hole.pruned {rows : List TradeRow} (h : Hole rows db t) :
    ∃ p, t ∉ prune p db rows := by
  obtain ⟨c, hc, hi, hle⟩ := h.candle
  obtain ⟨built, hb, hle'⟩ := le_builtThrough hc hi
  have := lt_hourOf_add t.timestamp
  exact ⟨_, prune_all hb h.trade (by omega)⟩

end Prune

section Resume

variable {rows : List TradeRow} {k : Nat}

theorem resumed_builtTo (h : ¬Torn rows ((statements true rows .empty).take k)) (n : Nat) :
    ∃ b, BuiltTo rows (resumed rows k n) b := by
  induction n with
  | zero =>
    cases interrupted_cases rows k with
    | inl hhole => exact absurd hhole.1 h
    | inr hdone => exact hdone.2
  | succ n ih =>
    obtain ⟨b, hb⟩ := ih
    exact hb.rollup

theorem resumed_hole (h : Torn rows ((statements true rows .empty).take k)) :
    ∃ t, ∀ n, Hole rows (resumed rows k n) t := by
  cases interrupted_cases rows k with
  | inl hhole =>
    obtain ⟨-, t, ht⟩ := hhole
    refine ⟨t, fun n => ?_⟩
    induction n with
    | zero => exact ht
    | succ n ih => exact ih.rollup
  | inr hdone => exact absurd h hdone.1

/-- However often the interrupted rollup is started again, every trade that any prune run
deletes is covered by both tables exactly when the interruption did not fall between the
candles and the snapshots of a batch with trades in it. -/
theorem prune_covers_iff (table : TradeTable) (k n : Nat) :
    (∀ p, ∀ t ∈ table.rows, t ∉ prune p (resumed table.rows k n) table.rows →
      Covered table.rows (resumed table.rows k n) t) ↔
      ¬Torn table.rows ((statements true table.rows .empty).take k) := by
  constructor
  · intro hcovers htorn
    obtain ⟨t, hhole⟩ := resumed_hole htorn
    obtain ⟨p, hgone⟩ := (hhole n).pruned
    have hmem := (List.mem_filter.mp (hhole n).trade).1
    exact (hhole n).snapshots _ (hcovers p t hmem hgone).snapshot rfl
  · intro htorn p t ht hgone
    obtain ⟨b, hb⟩ := resumed_builtTo htorn n
    exact hb.prune_covered ht hgone

end Resume

def twoHours : TradeTable where
  rows := [
    { id := 1, chainId := 4663, tokenId := 1, venue := .curve, traderAddress := 1, side := .buy,
      quoteAmount := 5, price := 7, blockNumber := 10, logIndex := 0, timestamp := 0 },
    { id := 2, chainId := 4663, tokenId := 1, venue := .curve, traderAddress := 1, side := .sell,
      quoteAmount := 5, price := 7, blockNumber := 11, logIndex := 0, timestamp := 3600000 }]
  primaryKey := by decide

/-- Stopped after its first statement and started again, the rollup never snapshots the first hour,
and a prune deletes its trade. -/
theorem twoHours_uncovered : ∃ p, ∃ t ∈ twoHours.rows,
    t ∉ prune p (resumed twoHours.rows 1 1) twoHours.rows ∧
      ∀ s ∈ (resumed twoHours.rows 1 1).snapshots, snapshotKey s ≠ snapshotGroup t := by
  have hrange : rollupRange twoHours.rows .empty = some (0, 3600000) := by decide
  have htorn : Torn twoHours.rows ((statements true twoHours.rows .empty).take 1) := by
    rw [statements_eq hrange, batches, if_pos (by decide)]
    exact ⟨_, rfl, by decide⟩
  obtain ⟨t, hhole⟩ := resumed_hole htorn
  obtain ⟨p, hgone⟩ := (hhole 1).pruned
  exact ⟨p, t, (List.mem_filter.mp (hhole 1).trade).1, hgone, (hhole 1).snapshots⟩

end Stunks.Scripts
