import Mathlib.Logic.Relation
import Stunks.Indexer.Ledger

namespace Stunks.Indexer

open Database

variable {H : Type} {β : Type}

namespace StreamConfig

variable (cfg : StreamConfig) (hash : Chain → H)

def recorded (w : World H (Ledger H)) : Option (IndexerState H) := w.tables.states cfg.stream

def Exact (w : World H (Ledger H)) : Prop :=
  ∀ state, cfg.recorded w = some state →
    w.base.rows.Nodup ∧
    (∀ row ∈ w.base.rows, row.blockNumber ≤ state.lastProcessedBlock →
      cfg.Canonical hash w.base.chain row) ∧
    ∀ log, cfg.Canonical hash w.base.chain log → cfg.startBlock < log.blockNumber →
      log.blockNumber ≤ state.lastProcessedBlock → log ∈ w.base.rows

def deep (w : World H (Ledger H)) (chain : Chain) : Bool :=
  match cfg.recorded w with
  | some state => Agree (state.lastProcessedBlock - cfg.confirmationDepth) w.base.chain chain
  | none => true

/-- With no hash recorded, the blocks up to the checkpoint stay, or there is nothing to lose. -/
def sparesUnrecorded (w : World H (Ledger H)) (chain : Chain) : Bool :=
  match cfg.recorded w with
  | some state =>
    state.lastProcessedBlockHash.isSome || Agree state.lastProcessedBlock w.base.chain chain ||
      (state.lastProcessedBlock ≤ cfg.startBlock && w.base.rows.isEmpty)
  | none => true

/-- The logs and the hash of the window came from one chain, which had the recorded hash, if any,
and of which the blocks below a rollback from there are in place. -/
def keepsEvidence [DecidableEq H] (w : World H (Ledger H)) : Bool :=
  match cfg.recorded w, w.base.reading with
  | some state, some { reached, logsOf, hashOf := some seen } =>
    (state.lastProcessedBlockHash.all fun recordedHash =>
      recordedHash = hashAt hash seen state.lastProcessedBlock) &&
    decide (Agree reached logsOf seen) &&
    decide (Agree (reached - cfg.confirmationDepth) w.base.chain seen)
  | _, _ => true

def EnvOk (w : World H (Ledger H)) (chain : Chain) : Prop :=
  UniqueKeys chain ∧ (w.base.chain <+: chain ∨
    (cfg.deep w chain = true ∧ (w.base.forked = true → cfg.sparesUnrecorded w chain = true)))

/-- Only requests fail, and a tick in which one did, or under which a block was replaced, does not
overwrite a hash that the chain no longer has. -/
def CallOk [DecidableEq H] (call : Call H (StreamCall H) β) (o : Answers (Option Nat))
    (w : World H (Ledger H)) :
    Prop :=
  (o.fault ≠ none → call.isRequest = true) ∧
    (call.isAdvance = true → w.base.quiet = true ∨ cfg.keepsEvidence hash w = true)

structure Covers (rows : List (RawLog H)) (c : Chain) (last : Nat) : Prop where
  sound : ∀ row ∈ rows, cfg.Canonical hash c row ∧ row.blockNumber ≤ last
  complete : ∀ log, cfg.Canonical hash c log → cfg.startBlock < log.blockNumber →
    log.blockNumber ≤ last → log ∈ rows

/-- What tells the recorded checkpoint from one of another chain. -/
def Evidence (w : World H (Ledger H)) (c : Chain) (last : Nat) : Option H → Prop
  | some recordedHash => 0 < last ∧ last < c.length ∧ recordedHash = hashAt hash c last ∧
      Agree (last - cfg.confirmationDepth) w.base.chain c
  | none => (last < w.base.chain.length ∧ Agree last w.base.chain c) ∨
      (last ≤ cfg.startBlock ∧ w.base.rows = [])

def Unforked (w : World H (Ledger H)) (c : Chain) (last : Nat) (recordedHash : Option H) : Prop :=
  w.base.forked = false →
    (recordedHash = none → last ≤ cfg.startBlock ∧ w.base.rows = []) ∧
    (recordedHash ≠ none → Agree last w.base.chain c)

def Good (w : World H (Ledger H)) (last : Nat) (recordedHash : Option H) : Prop :=
  ∃ c, cfg.Covers hash w.base.rows c last ∧ cfg.Evidence hash w c last recordedHash ∧
    cfg.Unforked w c last recordedHash

def Fresh (w : World H (Ledger H)) (state : IndexerState H) : Prop :=
  w.base.quiet = true → ∀ recordedHash, state.lastProcessedBlockHash = some recordedHash →
    state.lastProcessedBlock < w.base.chain.length ∧
      recordedHash = hashAt hash w.base.chain state.lastProcessedBlock

structure Wellformed (w : World H (Ledger H)) : Prop where
  chain : UniqueKeys w.base.chain
  rows : (w.base.rows.map RawLog.key).Nodup

def Matches (state : IndexerState H) (seen : Chain) : Prop :=
  ∀ recordedHash, state.lastProcessedBlockHash = some recordedHash →
    recordedHash = hashAt hash seen state.lastProcessedBlock

structure Window (w : World H (Ledger H)) (state : IndexerState H) (batch : LogBatch H)
    (logsOf : Chain) (hashOf : Option Chain) : Prop where
  reading : w.base.reading = some { reached := batch.reachedBlock, logsOf, hashOf }
  lt : state.lastProcessedBlock < batch.reachedBlock
  length : batch.reachedBlock < logsOf.length
  logs : ∀ log, log ∈ batch.logs ↔ cfg.Canonical hash logsOf log ∧
    state.lastProcessedBlock < log.blockNumber ∧ log.blockNumber ≤ batch.reachedBlock

def Undisputed (w : World H (Ledger H)) (p : Prop) : Prop :=
  (w.base.quiet = true → p) ∧ (w.base.forked = false → p)

def Idle (w : World H (Ledger H)) : Prop :=
  Wellformed w ∧ (cfg.recorded w = none → w.base.rows = []) ∧
    ∀ state, cfg.recorded w = some state →
      cfg.Good hash w state.lastProcessedBlock state.lastProcessedBlockHash

structure Loaded (w : World H (Ledger H)) (state : IndexerState H) : Prop where
  wellformed : Wellformed w
  row : cfg.recorded w = some state
  good : cfg.Good hash w state.lastProcessedBlock state.lastProcessedBlockHash

structure Fetched (w : World H (Ledger H)) (state : IndexerState H) (batch : LogBatch H) : Prop
    extends Loaded cfg hash w state where
  fresh : Fresh hash w state
  window : ∃ logsOf, cfg.Window hash w state batch logsOf none ∧
    Undisputed w (Agree batch.reachedBlock w.base.chain logsOf)

structure Deleted (w : World H (Ledger H)) (state : IndexerState H) (target : Nat) : Prop where
  wellformed : Wellformed w
  row : cfg.recorded w = some state
  recorded : state.lastProcessedBlockHash ≠ none
  rewind : target = state.lastProcessedBlock - cfg.confirmationDepth
  forked : w.base.forked = true
  length : target < w.base.chain.length
  covers : cfg.Covers hash w.base.rows w.base.chain target

structure Seen (w : World H (Ledger H)) (state : IndexerState H) (batch : LogBatch H)
    (reachedHash : H) (covered : Nat) (logsOf seen : Chain) : Prop
    extends Window cfg hash w state batch logsOf (some seen) where
  keys : UniqueKeys seen
  seenLength : batch.reachedBlock < seen.length
  reached : reachedHash = hashAt hash seen batch.reachedBlock
  undisputed : Undisputed w (Matches hash state seen ∧ Agree batch.reachedBlock logsOf seen ∧
    Agree batch.reachedBlock w.base.chain seen)
  covers : Matches hash state seen → Agree batch.reachedBlock logsOf seen →
    cfg.Covers hash w.base.rows seen covered

structure Hashed (w : World H (Ledger H)) (state : IndexerState H) (batch : LogBatch H)
    (reachedHash : H) (covered : Nat) : Prop where
  wellformed : Wellformed w
  row : cfg.recorded w = some state
  seen : ∃ logsOf seen, cfg.Seen hash w state batch reachedHash covered logsOf seen

def holds (p : Phase H) (w : World H (Ledger H)) : Prop :=
  match p with
  | .idle => cfg.Idle hash w
  | .loaded state => cfg.Loaded hash w state
  | .checked state => cfg.Loaded hash w state ∧ Fresh hash w state
  | .diverged state target => cfg.Loaded hash w state ∧ state.lastProcessedBlockHash ≠ none ∧
      target = state.lastProcessedBlock - cfg.confirmationDepth ∧ w.base.forked = true
  | .deleted state target => cfg.Deleted hash w state target
  | .rewound _ _ rest => cfg.Idle hash w ∧ cfg.stream ∉ rest
  | .ahead _ _ dependent rest => cfg.Idle hash w ∧ cfg.stream ∉ dependent :: rest
  | .ceiled state _ => cfg.Loaded hash w state ∧ Fresh hash w state
  | .bounded state _ => cfg.Loaded hash w state ∧ Fresh hash w state
  | .addressed state _ addresses =>
    (cfg.Loaded hash w state ∧ Fresh hash w state) ∧ addresses = cfg.addresses
  | .fetched state batch => cfg.Fetched hash w state batch
  | .hashed state batch reachedHash =>
    cfg.Hashed hash w state batch reachedHash state.lastProcessedBlock
  | .processed state batch reachedHash =>
    cfg.Hashed hash w state batch reachedHash batch.reachedBlock
  | .advanced _ _ _ => cfg.Idle hash w ∧
      ∀ state, cfg.recorded w = some state → Fresh hash w state

variable {cfg hash} {w : World H (Ledger H)} {chain c d : Chain} {rows : List (RawLog H)}
  {state : IndexerState H} {batch : LogBatch H} {reachedHash : H} {n last target : Nat}

theorem Canonical.congr {log : RawLog H} (h : Agree n c d) (hn : log.blockNumber ≤ n) :
    cfg.Canonical hash c log ↔ cfg.Canonical hash d log :=
  and_congr (h.onChain_iff hn) Iff.rfl

theorem Covers.congr (h : cfg.Covers hash rows c last) (hcd : Agree last c d) :
    cfg.Covers hash rows d last where
  sound := fun row hrow =>
    have ⟨hcanon, hle⟩ := h.sound row hrow
    ⟨(Canonical.congr hcd hle).mp hcanon, hle⟩
  complete := fun log hlog hlo hhi =>
    h.complete log ((Canonical.congr hcd.symm hhi).mp hlog) hlo hhi

def moved (w : World H (Ledger H)) (chain : Chain) : World H (Ledger H) :=
  { w with base := w.base.setChain chain }

theorem moved_grow (h : w.base.chain <+: chain) :
    (w.base.setChain chain).quiet = w.base.quiet ∧
      (w.base.setChain chain).forked = w.base.forked := by
  simp [Ledger.setChain, h]

theorem moved_fork (h : ¬ w.base.chain <+: chain) :
    (w.base.setChain chain).quiet = false ∧ (w.base.setChain chain).forked = true := by
  simp [Ledger.setChain, h]

theorem EnvOk.cases (h : cfg.EnvOk w chain) :
    (w.base.chain <+: chain ∧ (w.base.setChain chain).quiet = w.base.quiet ∧
      (w.base.setChain chain).forked = w.base.forked) ∨
    (cfg.deep w chain = true ∧ (w.base.forked = true → cfg.sparesUnrecorded w chain = true) ∧
      (w.base.setChain chain).quiet = false ∧ (w.base.setChain chain).forked = true) := by
  by_cases hgrow : w.base.chain <+: chain
  · exact .inl ⟨hgrow, moved_grow hgrow⟩
  · obtain ⟨-, hprefix | ⟨hdeep, hunrecorded⟩⟩ := h
    · exact absurd hprefix hgrow
    · exact .inr ⟨hdeep, hunrecorded, moved_fork hgrow⟩

theorem Wellformed.moved (h : Wellformed w) (henv : cfg.EnvOk w chain) :
    Wellformed (moved w chain) :=
  ⟨henv.1, h.rows⟩

theorem deep_iff (hrow : cfg.recorded w = some state) :
    cfg.deep w chain = true ↔
      Agree (state.lastProcessedBlock - cfg.confirmationDepth) w.base.chain chain := by
  simp [deep, hrow]

theorem EnvOk.agree_deep (h : cfg.EnvOk w chain) (hrow : cfg.recorded w = some state)
    (hlen : state.lastProcessedBlock - cfg.confirmationDepth < w.base.chain.length) :
    Agree (state.lastProcessedBlock - cfg.confirmationDepth) w.base.chain chain := by
  obtain ⟨-, hgrow | ⟨hdeep, -⟩⟩ := h
  · exact .of_grown hgrow hlen
  · exact (deep_iff hrow).mp hdeep

theorem sparesUnrecorded_cases (hrow : cfg.recorded w = some state)
    (h : cfg.sparesUnrecorded w chain = true) :
    state.lastProcessedBlockHash ≠ none ∨ Agree state.lastProcessedBlock w.base.chain chain ∨
      (state.lastProcessedBlock ≤ cfg.startBlock ∧ w.base.rows = []) := by
  simpa [sparesUnrecorded, hrow, Option.isSome_iff_ne_none, or_assoc] using h

theorem Good.moved (h : cfg.Good hash w state.lastProcessedBlock state.lastProcessedBlockHash)
    (hrow : cfg.recorded w = some state) (henv : cfg.EnvOk w chain) :
    cfg.Good hash (moved w chain) state.lastProcessedBlock state.lastProcessedBlockHash := by
  obtain ⟨c, hcovers, hevidence, hunforked⟩ := h
  refine ⟨c, hcovers, ?_, ?_⟩
  · cases hhash : state.lastProcessedBlockHash with
    | some recordedHash =>
      rw [hhash] at hevidence
      obtain ⟨hpos, hlen, heq, hagree⟩ := hevidence
      refine ⟨hpos, hlen, heq, ?_⟩
      have hdepth := hagree.symm.length (by omega)
      exact (henv.agree_deep hrow hdepth).symm.trans hagree
    | none =>
      rw [hhash] at hevidence
      rcases hevidence with ⟨hlen, hagree⟩ | hempty
      · rcases henv.cases with ⟨hgrow, -, -⟩ | ⟨-, hunrecorded, -, -⟩
        · have hmove := Agree.of_grown hgrow hlen
          exact .inl ⟨hmove.length hlen, hmove.symm.trans hagree⟩
        · by_cases hforked : w.base.forked = true
          · rcases sparesUnrecorded_cases hrow (hunrecorded hforked) with hsome | hmove | hempty
            · exact absurd hhash hsome
            · exact .inl ⟨hmove.length hlen, hmove.symm.trans hagree⟩
            · exact .inr hempty
          · exact .inr ((hunforked (by simpa using hforked)).1 hhash)
      · exact .inr hempty
  · intro hforked
    rcases henv.cases with ⟨hgrow, -, hsame⟩ | ⟨-, -, -, hfork⟩
    · obtain ⟨hnone, hsome⟩ := hunforked (hsame.symm.trans hforked)
      refine ⟨hnone, fun hhash => ?_⟩
      obtain ⟨recordedHash, hrec⟩ := Option.ne_none_iff_exists'.mp hhash
      rw [hrec] at hevidence
      have hagree := hsome hhash
      have hlen := hagree.symm.length hevidence.2.1
      exact (Agree.of_grown hgrow hlen).symm.trans hagree
    · exact absurd (hfork.symm.trans hforked) (by simp)

theorem Idle.moved (h : cfg.Idle hash w) (henv : cfg.EnvOk w chain) :
    cfg.Idle hash (moved w chain) :=
  have ⟨hwell, hnone, hgood⟩ := h
  ⟨hwell.moved henv, hnone, fun state hrow => (hgood state hrow).moved hrow henv⟩

theorem Loaded.moved (h : cfg.Loaded hash w state) (henv : cfg.EnvOk w chain) :
    cfg.Loaded hash (moved w chain) state :=
  ⟨h.wellformed.moved henv, h.row, h.good.moved h.row henv⟩

theorem hashAt_congr (h : Agree n c d) : hashAt hash c n = hashAt hash d n := congrArg hash h

theorem Fresh.moved (h : Fresh hash w state) (henv : cfg.EnvOk w chain) :
    Fresh hash (moved w chain) state := by
  intro hquiet recordedHash hrec
  rcases henv.cases with ⟨hgrow, hsame, -⟩ | ⟨-, -, hfork, -⟩
  · obtain ⟨hlen, heq⟩ := h (hsame.symm.trans hquiet) recordedHash hrec
    have hmove := Agree.of_grown hgrow hlen
    exact ⟨hmove.length hlen, heq.trans (hashAt_congr hmove)⟩
  · exact absurd (hfork.symm.trans hquiet) (by simp)

theorem forked_moved (h : w.base.forked = true) : (w.base.setChain chain).forked = true := by
  simp [Ledger.setChain, h]

theorem Deleted.moved (h : cfg.Deleted hash w state target) (henv : cfg.EnvOk w chain) :
    cfg.Deleted hash (moved w chain) state target := by
  have hmove : Agree target w.base.chain chain :=
    h.rewind ▸ henv.agree_deep h.row (h.rewind ▸ h.length)
  exact ⟨h.wellformed.moved henv, h.row, h.recorded, h.rewind, forked_moved h.forked,
    hmove.length h.length, h.covers.congr hmove⟩

theorem Undisputed.moved {p : Prop} (h : Undisputed w (p ∧ Agree n w.base.chain c))
    (hlen : n < c.length) (henv : cfg.EnvOk w chain) :
    Undisputed (moved w chain) (p ∧ Agree n chain c) := by
  have hkept (hp : p ∧ Agree n w.base.chain c) (hgrow : w.base.chain <+: chain) :
      p ∧ Agree n chain c :=
    ⟨hp.1, (Agree.of_grown hgrow (hp.2.symm.length hlen)).symm.trans hp.2⟩
  constructor
  · intro hquiet
    rcases henv.cases with ⟨hgrow, hsame, -⟩ | ⟨-, -, hfork, -⟩
    · exact hkept (h.1 (hsame.symm.trans hquiet)) hgrow
    · exact absurd (hfork.symm.trans hquiet) (by simp)
  · intro hforked
    rcases henv.cases with ⟨hgrow, -, hsame⟩ | ⟨-, -, -, hfork⟩
    · exact hkept (h.2 (hsame.symm.trans hforked)) hgrow
    · exact absurd (hfork.symm.trans hforked) (by simp)

theorem Undisputed.imp {p q : Prop} (h : Undisputed w p) (hpq : p → q) : Undisputed w q :=
  ⟨fun hquiet => hpq (h.1 hquiet), fun hforked => hpq (h.2 hforked)⟩

theorem Fetched.moved (h : cfg.Fetched hash w state batch) (henv : cfg.EnvOk w chain) :
    cfg.Fetched hash (moved w chain) state batch := by
  obtain ⟨logsOf, hwindow, hsame⟩ := h.window
  refine ⟨h.toLoaded.moved henv, h.fresh.moved henv, logsOf,
    ⟨hwindow.reading, hwindow.lt, hwindow.length, hwindow.logs⟩, ?_⟩
  have hmoved := (hsame.imp (q := True ∧ _) fun hagree => ⟨trivial, hagree⟩).moved hwindow.length
    henv
  exact hmoved.imp And.right

theorem Hashed.moved {covered : Nat} (h : cfg.Hashed hash w state batch reachedHash covered)
    (henv : cfg.EnvOk w chain) :
    cfg.Hashed hash (moved w chain) state batch reachedHash covered := by
  obtain ⟨logsOf, seen, hseen⟩ := h.seen
  refine ⟨h.wellformed.moved henv, h.row, logsOf, seen,
    ⟨hseen.reading, hseen.lt, hseen.length, hseen.logs⟩, hseen.keys, hseen.seenLength,
    hseen.reached, ?_, hseen.covers⟩
  have hmoved := (hseen.undisputed.imp fun ⟨hmatch, hlogs, hagree⟩ =>
    (⟨⟨hmatch, hlogs⟩, hagree⟩ : (_ ∧ _) ∧ _)).moved hseen.seenLength henv
  exact hmoved.imp fun ⟨⟨hmatch, hlogs⟩, hagree⟩ => ⟨hmatch, hlogs, hagree⟩

theorem holds_moved {p : Phase H} (h : cfg.holds hash p w) (henv : cfg.EnvOk w chain) :
    cfg.holds hash p (moved w chain) := by
  cases p with
  | idle => exact Idle.moved h henv
  | loaded _ => exact Loaded.moved h henv
  | checked _ => exact ⟨h.1.moved henv, h.2.moved henv⟩
  | diverged _ _ => exact ⟨h.1.moved henv, h.2.1, h.2.2.1, forked_moved h.2.2.2⟩
  | deleted _ _ => exact Deleted.moved h henv
  | rewound _ _ _ => exact ⟨h.1.moved henv, h.2⟩
  | ahead _ _ _ _ => exact ⟨h.1.moved henv, h.2⟩
  | ceiled _ _ => exact ⟨h.1.moved henv, h.2.moved henv⟩
  | bounded _ _ => exact ⟨h.1.moved henv, h.2.moved henv⟩
  | addressed _ _ _ => exact ⟨⟨h.1.1.moved henv, h.1.2.moved henv⟩, h.2⟩
  | fetched _ _ => exact Fetched.moved h henv
  | hashed _ _ _ => exact Hashed.moved h henv
  | processed _ _ _ => exact Hashed.moved h henv
  | advanced _ _ _ => exact ⟨h.1.moved henv, fun state hrow => (h.2 state hrow).moved henv⟩

end StreamConfig

end Stunks.Indexer
