import Mathlib.Logic.Relation
import Stunks.Indexer.Exactness

namespace Stunks.Indexer

open Database

variable {H : Type} {β : Type}

namespace StreamConfig

variable {cfg : StreamConfig} {hash : Chain → H} {w : World H (Ledger H)} {chain c d : Chain}
  {rows : List (RawLog H)} {state : IndexerState H} {batch : LogBatch H} {reachedHash : H}
  {n last target : Nat} {o : Answers (Option Nat)} {fault : Fault}

def mark (w : World H (Ledger H)) (quiet : Bool) (reading : Option Reading) :
    World H (Ledger H) :=
  { w with base := { w.base with quiet, reading } }

theorem Wellformed.mark (h : Wellformed w) {quiet : Bool} {reading : Option Reading} :
    Wellformed (mark w quiet reading) :=
  ⟨h.chain, h.rows⟩

theorem Idle.mark (h : cfg.Idle hash w) {quiet : Bool} {reading : Option Reading} :
    cfg.Idle hash (mark w quiet reading) :=
  ⟨h.1.mark, h.2.1, h.2.2⟩

theorem Loaded.mark (h : cfg.Loaded hash w state) {quiet : Bool}
    {reading : Option Reading} : cfg.Loaded hash (mark w quiet reading) state :=
  ⟨h.wellformed.mark, h.row, h.good⟩

theorem Loaded.idle (h : cfg.Loaded hash w state) : cfg.Idle hash w := by
  refine ⟨h.wellformed, fun hnone => ?_, fun other hother => ?_⟩
  · cases h.row.symm.trans hnone
  · obtain rfl := Option.some.inj (h.row.symm.trans hother)
    exact h.good

theorem fresh_of_failed {reading : Option Reading} :
    Fresh hash (StreamConfig.mark w false reading) state :=
  fun hquiet => by cases hquiet

theorem exec_ok {call : Call H (StreamCall H) β} (h : o.fault = none) :
    exec hash call o w =
      let (answer, w') := (backend hash).perform o w call
      (answer, { w' with base := w'.base.note call answer }) := by
  simp only [exec, Backend.exec_ok _ h]

theorem exec_fault {call : Call H (StreamCall H) β} (h : o.fault = some fault)
    (hreq : call.isRequest = true) :
    exec hash call o w =
      (.error fault.failure, { w with base := w.base.note call (.error fault.failure) }) := by
  simp only [exec, Backend.exec_request _ h hreq]

theorem exec_blockHash (h : o.fault = none) (hn : n < w.base.chain.length) :
    exec hash (.blockHash n) o w =
      (.ok (hashAt hash w.base.chain n),
        mark w w.base.quiet (w.base.reading.map (Reading.hashed n w.base.chain))) := by
  simp only [exec_ok h, Backend.perform, backend, hn, ↓reduceIte, Ledger.note, mark]

theorem exec_blockHash_fails (h : o.fault ≠ none ∨ ¬ n < w.base.chain.length) :
    ∃ failure, exec hash (.blockHash n) o w = (.error failure, mark w false w.base.reading) := by
  cases hfault : o.fault with
  | some fault => exact ⟨fault.failure, exec_fault hfault rfl⟩
  | none =>
    have hn : ¬ n < w.base.chain.length := h.resolve_left (by simp [hfault])
    refine ⟨blockNotFound n, ?_⟩
    simp [exec_ok hfault, Backend.perform, backend, hn, Ledger.note, mark]

def answered (hash : Chain → H) (o : Answers (Option Nat)) (w : World H (Ledger H))
    (query : LogQuery) : LogBatch H :=
  (backend hash).logs o w.base query

theorem exec_getLogs (h : o.fault = none) (query : LogQuery) :
    exec hash (.getLogs query) o w = (.ok (answered hash o w query), mark w w.base.quiet
      (if query.fromBlock ≤ (answered hash o w query).reachedBlock then
        some ⟨(answered hash o w query).reachedBlock, w.base.chain, none⟩ else w.base.reading)) := by
  by_cases hle : query.fromBlock ≤ (answered hash o w query).reachedBlock
  · rw [if_pos hle, exec_ok h]
    simp only [Backend.perform, Ledger.note]
    rw [if_pos (show query.fromBlock ≤ ((backend hash).logs o w.base query).reachedBlock from hle)]
    rfl
  · rw [if_neg hle, exec_ok h]
    simp only [Backend.perform, Ledger.note]
    rw [if_neg (show ¬ query.fromBlock ≤ ((backend hash).logs o w.base query).reachedBlock
      from hle)]
    rfl

def query (cfg : StreamConfig) (checkpoint boundary : Nat) : LogQuery where
  fromBlock := checkpoint + 1
  toBlock := boundary
  addresses := cfg.addresses
  topics0 := cfg.topics0

theorem mem_answered {boundary : Nat} {log : RawLog H} :
    log ∈ (answered hash o w (cfg.query last boundary)).logs ↔
      cfg.Canonical hash w.base.chain log ∧ last < log.blockNumber ∧
        log.blockNumber ≤ (answered hash o w (cfg.query last boundary)).reachedBlock := by
  simp only [answered, backend, query, List.mem_filter, mem_logsBetween, Nat.add_sub_cancel]
  exact and_right_comm

theorem answered_lt {query : LogQuery} (h : 0 < (answered hash o w query).reachedBlock) :
    (answered hash o w query).reachedBlock < w.base.chain.length := by
  simp only [answered, backend] at h ⊢
  omega

section injective

variable (hinj : Function.Injective hash)
include hinj

theorem agree_of_hashAt (h : hashAt hash c n = hashAt hash d n) : Agree n c d := hinj h

theorem Good.covers
    (h : cfg.Good hash w state.lastProcessedBlock state.lastProcessedBlockHash)
    (hmatch : Matches hash state w.base.chain) :
    cfg.Covers hash w.base.rows w.base.chain state.lastProcessedBlock := by
  obtain ⟨c, hcovers, hevidence, -⟩ := h
  cases hhash : state.lastProcessedBlockHash with
  | some recordedHash =>
    rw [hhash] at hevidence
    have hsame := hevidence.2.2.1.symm.trans (hmatch recordedHash hhash)
    exact hcovers.congr (agree_of_hashAt hinj hsame)
  | none =>
    rw [hhash] at hevidence
    rcases hevidence with ⟨-, hagree⟩ | ⟨hstart, hempty⟩
    · exact hcovers.congr hagree.symm
    · refine ⟨fun row hrow => ?_, fun log _ hlo hhi => by omega⟩
      rw [hempty] at hrow
      cases hrow

omit hinj in
theorem Covers.exact (hwell : Wellformed w) (hrow : cfg.recorded w = some state)
    (h : cfg.Covers hash w.base.rows w.base.chain state.lastProcessedBlock) : cfg.Exact hash w := by
  intro other hother
  obtain rfl := Option.some.inj (hrow.symm.trans hother)
  exact ⟨hwell.rows.of_map, fun row hmem _ => (h.sound row hmem).1, h.complete⟩

theorem Loaded.exact (h : cfg.Loaded hash w state) (hfresh : Fresh hash w state)
    (hquiet : w.base.quiet = true) : cfg.Exact hash w := by
  refine Covers.exact h.wellformed h.row (Good.covers hinj h.good ?_)
  exact fun recordedHash hrec => (hfresh hquiet recordedHash hrec).2

end injective

section steps

variable {call : Call H (StreamCall H) β}

theorem CallOk.no_fault [DecidableEq H] (h : cfg.CallOk hash call o w)
    (hreq : call.isRequest = false) :
    o.fault = none := by
  by_contra hfault
  cases (h.1 hfault).symm.trans hreq

theorem idle_load (h : cfg.Idle hash w) (ho : o.fault = none) :
    ∃ state, (exec hash (.upsertState cfg.stream cfg.startBlock) o w).1 = .ok state ∧
      cfg.Loaded hash (exec hash (.upsertState cfg.stream cfg.startBlock) o w).2 state := by
  rw [exec_ok ho]
  simp only [Backend.perform, Tables.upsertState, Ledger.note]
  cases hrow : w.tables.states cfg.stream with
  | some state => exact ⟨state, rfl, h.1, hrow, h.2.2 state hrow⟩
  | none =>
    have hempty : w.base.rows = [] := h.2.1 hrow
    refine ⟨_, rfl, ⟨h.1.chain, h.1.rows⟩, Tables.setState_states_self .., w.base.chain, ?_, ?_, ?_⟩
    · refine ⟨fun row hmem => ?_, fun log _ hlo hhi => absurd hlo (not_lt.mpr hhi)⟩
      simp [hempty] at hmem
    · exact .inr ⟨le_refl _, hempty⟩
    · exact fun _ => ⟨fun _ => ⟨le_refl _, hempty⟩, fun hne => absurd rfl hne⟩

theorem loaded_check [DecidableEq H] (h : cfg.Loaded hash w state)
    (hhash : state.lastProcessedBlockHash ≠ none)
    (hn : state.lastProcessedBlock < w.base.chain.length) {reading : Option Reading} :
    cfg.holds hash (Phase.afterCheck cfg.confirmationDepth state
      (.ok (hashAt hash w.base.chain state.lastProcessedBlock)))
      (mark w w.base.quiet reading) := by
  obtain ⟨recordedHash, hrec⟩ := Option.ne_none_iff_exists'.mp hhash
  simp only [Phase.afterCheck, checkForReorg, hrec]
  by_cases heq : recordedHash = hashAt hash w.base.chain state.lastProcessedBlock
  · rw [if_pos heq]
    refine ⟨h.mark, fun _ other hother => ⟨hn, ?_⟩⟩
    obtain rfl := Option.some.inj (hrec.symm.trans hother)
    exact heq
  · rw [if_neg heq]
    refine ⟨h.mark, hhash, rewindTarget_eq .., ?_⟩
    obtain ⟨c, -, hevidence, hunforked⟩ := h.good
    by_contra hforked
    rw [hrec] at hevidence
    have hunfork : w.base.forked = false := by simpa [mark] using hforked
    have hagree := (hunforked hunfork).2 hhash
    exact heq (hevidence.2.2.1.trans (hashAt_congr hagree.symm))

def putState (cfg : StreamConfig) (w : World H (Ledger H)) (state : IndexerState H) :
    World H (Ledger H) :=
  { w with tables := w.tables.setState cfg.stream state }

theorem deleted_rewind (h : cfg.Deleted hash w state target) {reason : String} :
    cfg.Idle hash (cfg.putState w ((StateUpdate.rollbackTo target reason).apply state)) := by
  refine Loaded.idle ⟨⟨h.wellformed.chain, h.wellformed.rows⟩, Tables.setState_states_self ..,
    w.base.chain, h.covers, .inl ⟨h.length, rfl⟩, ?_⟩
  intro hforked
  exact absurd (h.forked.symm.trans hforked) (by simp)

theorem Idle.of_states (h : cfg.Idle hash w) {tables : Tables H}
    (hsame : tables.states cfg.stream = w.tables.states cfg.stream) :
    cfg.Idle hash { w with tables } :=
  ⟨⟨h.1.chain, h.1.rows⟩, fun hnone => h.2.1 (hsame.symm.trans hnone),
    fun state hrow => h.2.2 state (hsame.symm.trans hrow)⟩

theorem Idle.recordError (h : cfg.Idle hash w) (hrow : cfg.recorded w = some state)
    {error : String} :
    cfg.Idle hash (cfg.putState w ((StateUpdate.recordError error).apply state)) :=
  Loaded.idle ⟨⟨h.1.chain, h.1.rows⟩, Tables.setState_states_self .., h.2.2 state hrow⟩

theorem checked_fetch {boundary : Nat} (h : cfg.Loaded hash w state) (hfresh : Fresh hash w state)
    (hle : state.lastProcessedBlock + 1 ≤
      (answered hash o w (cfg.query state.lastProcessedBlock boundary)).reachedBlock) :
    cfg.Fetched hash (mark w w.base.quiet (some ⟨(answered hash o w
      (cfg.query state.lastProcessedBlock boundary)).reachedBlock, w.base.chain, none⟩)) state
      (answered hash o w (cfg.query state.lastProcessedBlock boundary)) :=
  ⟨h.mark, hfresh, w.base.chain, ⟨rfl, hle, answered_lt (by omega), fun _ => mem_answered⟩,
    fun _ => rfl, fun _ => rfl⟩

theorem fetched_hash (hinj : Function.Injective hash) (h : cfg.Fetched hash w state batch)
    (hlen : batch.reachedBlock < w.base.chain.length) :
    cfg.Hashed hash (mark w w.base.quiet
      (w.base.reading.map (Reading.hashed batch.reachedBlock w.base.chain))) state batch
      (hashAt hash w.base.chain batch.reachedBlock) state.lastProcessedBlock := by
  obtain ⟨logsOf, hwindow, hsame⟩ := h.window
  have hreading : w.base.reading.map (Reading.hashed batch.reachedBlock w.base.chain) =
      some ⟨batch.reachedBlock, logsOf, some w.base.chain⟩ := by
    simp [hwindow.reading, Reading.hashed]
  refine ⟨h.wellformed.mark, h.row, logsOf, w.base.chain,
    ⟨hreading, hwindow.lt, hwindow.length, hwindow.logs⟩, h.wellformed.chain, hlen, rfl,
    ⟨fun hquiet => ⟨?_, (hsame.1 hquiet).symm, rfl⟩, fun hforked => ⟨?_, (hsame.2 hforked).symm, rfl⟩⟩,
    fun hmatch _ => h.good.covers hinj hmatch⟩
  · exact fun other hother => (h.fresh hquiet other hother).2
  · intro other hother
    obtain ⟨c, -, hevidence, hunforked⟩ := h.good
    have hagree := (hunforked hforked).2 (by simp [hother])
    rw [hother] at hevidence
    exact hevidence.2.2.1.trans (hashAt_congr hagree.symm)

theorem Covers.store {seen : Chain} (h : cfg.Covers hash rows seen last)
    (hkeys : UniqueKeys seen) (hlt : last < n) {logs : List (RawLog H)}
    (hlogs : ∀ log, log ∈ logs ↔ cfg.Canonical hash seen log ∧ last < log.blockNumber ∧
      log.blockNumber ≤ n) :
    cfg.Covers hash (Table.insertMany RawLog.key rows logs) seen n := by
  have hsound : ∀ row ∈ Table.insertMany RawLog.key rows logs,
      cfg.Canonical hash seen row ∧ row.blockNumber ≤ n := by
    intro row hrow
    cases Table.of_mem_insertMany hrow with
    | inl hold =>
      obtain ⟨hcanon, hle⟩ := h.sound row hold
      exact ⟨hcanon, by omega⟩
    | inr hnew =>
      obtain ⟨hcanon, -, hle⟩ := (hlogs row).mp hnew
      exact ⟨hcanon, hle⟩
  refine ⟨hsound, fun log hlog hlo hhi => ?_⟩
  by_cases hle : log.blockNumber ≤ last
  · exact Table.mem_insertMany_of_mem (h.complete log hlog hlo hle)
  · obtain ⟨row, hrow, hkey⟩ : ∃ row ∈ Table.insertMany RawLog.key rows logs, row.key = log.key :=
      Table.exists_key_insertMany ((hlogs log).mpr ⟨hlog, by omega, hhi⟩)
    have heq : row = log := hkeys.eq_of_key (hsound row hrow).1.1 hlog.1 hkey
    exact heq ▸ hrow

theorem hashed_process (h : cfg.Hashed hash w state batch reachedHash state.lastProcessedBlock) :
    cfg.Hashed hash
      { w with base := { w.base with rows := Table.insertMany RawLog.key w.base.rows batch.logs } }
      state batch reachedHash batch.reachedBlock := by
  obtain ⟨logsOf, seen, hseen⟩ := h.seen
  refine ⟨⟨h.wellformed.chain, Table.nodup_insertMany h.wellformed.rows⟩, h.row, logsOf, seen,
    ⟨hseen.reading, hseen.lt, hseen.length, hseen.logs⟩, hseen.keys, hseen.seenLength,
    hseen.reached, hseen.undisputed, fun hmatch hsame => ?_⟩
  refine (hseen.covers hmatch hsame).store hseen.keys hseen.lt fun log => (hseen.logs log).trans ?_
  exact and_congr_left fun hblock => Canonical.congr hsame hblock.2

theorem keepsEvidence_iff [DecidableEq H] {logsOf seen : Chain}
    (hrow : cfg.recorded w = some state)
    (hreading : w.base.reading = some ⟨n, logsOf, some seen⟩) :
    cfg.keepsEvidence hash w = true ↔ Matches hash state seen ∧ Agree n logsOf seen ∧
      Agree (n - cfg.confirmationDepth) w.base.chain seen := by
  simp only [keepsEvidence, hrow, hreading, Bool.and_eq_true, Option.all_eq_true, decide_eq_true_eq,
    and_assoc]
  exact Iff.rfl

theorem processed_advance [DecidableEq H]
    (h : cfg.Hashed hash w state batch reachedHash batch.reachedBlock)
    (hok : w.base.quiet = true ∨ cfg.keepsEvidence hash w = true) {tables : Tables H}
    (hrow : tables.states cfg.stream =
      some ((StateUpdate.advance batch.reachedBlock reachedHash).apply state)) :
    cfg.holds hash (.advanced state batch reachedHash) { w with tables } := by
  obtain ⟨logsOf, seen, hseen⟩ := h.seen
  obtain ⟨hmatch, hsame, hagree⟩ : Matches hash state seen ∧ Agree batch.reachedBlock logsOf seen ∧
      Agree (batch.reachedBlock - cfg.confirmationDepth) w.base.chain seen := by
    cases hok with
    | inl hquiet =>
      obtain ⟨hmatch, hsame, hagree⟩ := hseen.undisputed.1 hquiet
      exact ⟨hmatch, hsame, hagree.mono (Nat.sub_le ..)⟩
    | inr hkeeps => exact (keepsEvidence_iff h.row hseen.reading).mp hkeeps
  refine ⟨Loaded.idle ⟨⟨h.wellformed.chain, h.wellformed.rows⟩, hrow, seen,
    hseen.covers hmatch hsame, ?_, ?_⟩, ?_⟩
  · exact ⟨Nat.zero_lt_of_lt hseen.lt, hseen.seenLength, hseen.reached, hagree⟩
  · intro hforked
    refine ⟨fun hnone => ?_, fun _ => (hseen.undisputed.2 hforked).2.2⟩
    cases (show some reachedHash = none from hnone)
  · intro other hother hquiet recordedHash hrec
    obtain rfl := Option.some.inj (hrow.symm.trans hother)
    obtain rfl := Option.some.inj hrec
    have hchain := (hseen.undisputed.1 hquiet).2.2
    exact ⟨hchain.symm.length hseen.seenLength, hseen.reached.trans (hashAt_congr hchain.symm)⟩

theorem diverged_delete (h : cfg.Loaded hash w state) (hhash : state.lastProcessedBlockHash ≠ none)
    (hforked : w.base.forked = true)
    (htarget : target = state.lastProcessedBlock - cfg.confirmationDepth) :
    cfg.Deleted hash { w with base := { w.base with
      rows := w.base.rows.filter fun row => row.blockNumber ≤ target } } state target := by
  obtain ⟨c, hcovers, hevidence, -⟩ := h.good
  obtain ⟨recordedHash, hrec⟩ := Option.ne_none_iff_exists'.mp hhash
  rw [hrec] at hevidence
  obtain ⟨-, hlen, -, hagree⟩ := hevidence
  rw [← htarget] at hagree
  refine ⟨⟨h.wellformed.chain, ?_⟩, h.row, hhash, htarget, hforked,
    hagree.symm.length (by omega), ?_, ?_⟩
  · exact h.wellformed.rows.sublist (List.filter_sublist.map _)
  · intro row hrow
    obtain ⟨hmem, hle⟩ := List.mem_filter.mp hrow
    have hle : row.blockNumber ≤ target := of_decide_eq_true hle
    exact ⟨(Canonical.congr hagree hle).mpr (hcovers.sound row hmem).1, hle⟩
  · intro log hlog hlo hhi
    have hcanon := (Canonical.congr hagree hhi).mp hlog
    exact List.mem_filter.mpr ⟨hcovers.complete log hcanon hlo (by omega), decide_eq_true hhi⟩

end steps

section rule

variable [DecidableEq H] (cfg hash)

def Moves (w w' : World H (Ledger H)) : Prop := ∃ chain, cfg.EnvOk w chain ∧ w' = moved w chain

def protocol : Protocol (Call H (StreamCall H)) Failure (Answers (Option Nat))
    (World H (Ledger H)) where
  exec := exec hash
  allow call o w := cfg.CallOk hash call o w
  rely := Relation.ReflTransGen cfg.Moves
  guar _ _ := True
  keep _ := True
  refl _ := .refl
  trans := .trans

variable {cfg hash}

theorem kept (p : Phase H) : (cfg.protocol hash).Kept (cfg.holds hash p) where
  keep := fun _ => trivial
  stable := fun hs hrely => by
    induction hrely with
    | refl => exact hs
    | tail _ hmove ih =>
      obtain ⟨chain, henv, rfl⟩ := hmove
      exact holds_moved ih henv

def ExactIfQuiet (cfg : StreamConfig) (hash : Chain → H) (w : World H (Ledger H)) : Prop :=
  w.base.quiet = true → cfg.Exact hash w

omit [DecidableEq H] in
theorem idle_of_settled {p : Phase H} (hp : p.Settled) (h : cfg.holds hash p w) :
    cfg.Idle hash w := by
  cases hp with
  | checked => exact h.1.idle
  | ceiled => exact h.1.idle
  | addressed => exact h.1.1.idle
  | advanced => exact h.1

omit [DecidableEq H] in
theorem holds_passes {p q : Phase H} (hpass : Passes (cfg.options (H := H)) p q)
    (h : cfg.holds hash p w) : cfg.holds hash q w := by
  cases hpass with
  | @unrecorded state hnone =>
    refine ⟨h, fun _ recordedHash hrec => ?_⟩
    obtain ⟨c, -, hevidence, -⟩ := h.good
    rw [hrec] at hevidence
    rcases hnone with hnone | hzero
    · cases hnone.symm.trans hrec
    · exact absurd hevidence.1 (by omega)
  | cascaded => exact h.1
  | uncapped _ _ => exact h
  | capped _ _ => exact h
  | stop hp => exact idle_of_settled hp h

theorem holds_step (hinj : Function.Injective hash) {p : Phase H}
    {call : Call H (StreamCall H) β} {next : Except Failure β → Phase H}
    (hc : Awaits (cfg.options (H := H)) p call next) (h : cfg.holds hash p w)
    (hok : cfg.CallOk hash call o w) :
    cfg.holds hash (next (exec hash call o w).1) (exec hash call o w).2 := by
  cases hc with
  | load =>
    obtain ⟨state, hanswer, hloaded⟩ := idle_load h (hok.no_fault rfl)
    refine Phase.holds_afterLoad (K := (cfg.holds hash · _)) hloaded.idle fun checkpoint hread => ?_
    cases hanswer.symm.trans hread
    exact hloaded
  | @check state hhash hblock =>
    by_cases hn : o.fault = none ∧ state.lastProcessedBlock < w.base.chain.length
    · rw [exec_blockHash hn.1 hn.2]
      exact loaded_check h hhash hn.2
    · obtain ⟨failure, heq⟩ : ∃ failure, exec hash (.blockHash state.lastProcessedBlock) o w =
          (.error failure, mark w false w.base.reading) := exec_blockHash_fails (not_and_or.mp hn)
      rw [heq]
      exact ⟨Loaded.mark h, fresh_of_failed⟩
  | @rewind state target reason =>
    rw [exec_ok (hok.no_fault rfl)]
    have hrow : w.tables.states cfg.stream = some state := Deleted.row h
    simp only [Backend.perform, Tables.updateState, options, hrow, Phase.after, Ledger.note]
    exact ⟨deleted_rewind h, cfg.others⟩
  | @look state target dependent rest =>
    rw [exec_ok (hok.no_fault rfl)]
    obtain ⟨hidle, hothers⟩ := h
    exact Phase.holds_afterLook (K := (cfg.holds hash · _)) hidle
      ⟨hidle, fun hmem => hothers (List.mem_cons_of_mem _ hmem)⟩ ⟨hidle, hothers⟩
  | @pull state target dependent rest reason =>
    rw [exec_ok (hok.no_fault rfl)]
    obtain ⟨hidle, hothers⟩ := h
    obtain ⟨hne, hrest⟩ := not_or.mp (List.mem_cons.not.mp hothers)
    simp only [Backend.perform, Tables.updateState, Ledger.note]
    cases w.tables.states dependent with
    | none => exact hidle
    | some row => exact ⟨hidle.of_states (Tables.setState_states_ne _ _ hne), hrest⟩
  | @head state =>
    cases hfault : o.fault with
    | none =>
      rw [exec_ok hfault]
      exact h
    | some fault =>
      rw [exec_fault hfault rfl]
      exact h.1.idle.mark
  | @fetch state boundary addresses =>
    obtain ⟨⟨hloaded, hfresh⟩, rfl⟩ := h
    change cfg.holds hash (Phase.after (Phase.afterFetch state)
      (exec hash (.getLogs (cfg.query state.lastProcessedBlock boundary)) o w).1)
      (exec hash (.getLogs (cfg.query state.lastProcessedBlock boundary)) o w).2
    cases hfault : o.fault with
    | none =>
      rw [exec_getLogs hfault]
      simp only [Phase.after, Phase.afterFetch]
      split
      · exact hloaded.idle.mark
      · rename_i hle
        rw [if_pos (show (cfg.query _ boundary).fromBlock ≤ _ from not_lt.mp hle)]
        exact checked_fetch hloaded hfresh (not_lt.mp hle)
    | some fault =>
      rw [exec_fault hfault rfl]
      exact hloaded.idle.mark
  | @hash state batch =>
    by_cases hn : o.fault = none ∧ batch.reachedBlock < w.base.chain.length
    · rw [exec_blockHash hn.1 hn.2]
      exact fetched_hash hinj h hn.2
    · obtain ⟨failure, heq⟩ : ∃ failure, exec hash (.blockHash batch.reachedBlock) o w =
          (.error failure, mark w false w.base.reading) := exec_blockHash_fails (not_and_or.mp hn)
      rw [heq]
      exact (Fetched.toLoaded h).idle.mark
  | @reread state batch reachedHash =>
    rw [exec_ok (hok.no_fault rfl)]
    have hrow : w.tables.states cfg.stream = some state := Hashed.row h
    obtain ⟨logsOf, seen, hseen⟩ := Hashed.seen h
    simp only [Backend.perform, options, hrow, Phase.after, Phase.afterReread, Ledger.note]
    rw [if_neg (not_lt.mpr hseen.lt.le)]
    exact h
  | @advance state batch reachedHash =>
    rw [exec_ok (hok.no_fault rfl)]
    have hrow : w.tables.states cfg.stream = some state := Hashed.row h
    simp only [Backend.perform, Tables.updateState, options, hrow, Phase.after, Ledger.note]
    exact processed_advance h (hok.2 rfl) (Tables.setState_states_self ..)
  | @resolve state batch reachedHash =>
    rw [exec_ok (hok.no_fault rfl)]
    exact ⟨h.1.of_states rfl, h.2⟩
  | @recordError error =>
    rw [exec_ok (hok.no_fault rfl)]
    simp only [Backend.perform, Tables.updateState, options, Ledger.note]
    cases hrow : w.tables.states cfg.stream with
    | none => exact h
    | some state => exact h.recordError hrow
  | @recordFailedBlock fromBlock error =>
    rw [exec_ok (hok.no_fault rfl)]
    exact h.of_states rfl

theorem triple_ext {p : Phase H} {call : StreamCall H β} {next : Except Failure β → Phase H}
    (h : ∀ w o, o.fault = none → cfg.holds hash p w →
      cfg.holds hash (next (exec hash (.ext call) o w).1) (exec hash (.ext call) o w).2) :
    (cfg.protocol hash).Triple (cfg.holds hash p) (Async.await (.ext call))
      fun r => cfg.holds hash (next r) :=
  .await (kept p) (fun r => kept (next r)) fun w o hw (hok : cfg.CallOk hash _ o w) =>
    ⟨trivial, h w o (hok.no_fault rfl) hw⟩

theorem tickRule (hinj : Function.Injective hash) :
    TickRule (cfg.protocol hash) cfg.options (cfg.holds hash) (cfg.ExactIfQuiet hash) where
  kept := kept
  step hc _ _ hs hok := ⟨trivial, holds_step hinj hc hs hok⟩
  passes := holds_passes
  settled := by
    intro p w hp h hquiet
    cases hp with
    | checked => exact h.1.exact hinj h.2 hquiet
    | ceiled => exact h.1.exact hinj h.2 hquiet
    | addressed => exact h.1.1.exact hinj h.1.2 hquiet
    | advanced =>
      intro state hrow
      have hloaded : cfg.Loaded hash w state := ⟨h.1.1, hrow, h.1.2.2 state hrow⟩
      exact hloaded.exact hinj (h.2 state hrow) hquiet state hrow
  deleteAbove state target := triple_ext fun w o ho ⟨hloaded, hhash, htarget, hforked⟩ => by
    rw [exec_ok ho]
    exact diverged_delete hloaded hhash hforked htarget
  maxBlock state maxBlock hmax := by
    simp only [options, Option.ite_none_right_eq_some, Option.some.injEq] at hmax
    obtain ⟨-, rfl⟩ := hmax
    refine triple_ext fun w o ho hw => ?_
    rw [exec_ok ho]
    exact hw
  addresses state boundary := .done (kept _) fun _ hs => ⟨hs, rfl⟩
  process state batch reachedHash := triple_ext fun w o ho hw => by
    rw [exec_ok ho]
    exact hashed_process hw

variable (cfg hash)

def Steps (c : RunState H) : System.Label Unit (Answers (Option Nat)) Chain → Prop
  | .call _ o => ∀ {β : Type} (call : Call H (StreamCall H) β) next,
      c.tasks () = some (.call call next) → cfg.CallOk hash call o c.world
  | .env chain => cfg.EnvOk c.world chain
  | .crash => False
  | _ => True

def outline (hinj : Function.Injective hash) : (cfg.system hash).Outline (cfg.Steps hash) where
  protocol _ := cfg.protocol hash
  idle _ := cfg.Idle hash
  post _ := TickRule.Outcome (cfg.holds hash) (cfg.ExactIfQuiet hash)
  exec _ _ _ _ _ := rfl
  allow hok htask := hok _ _ htask
  peer hne := absurd (Subsingleton.elim _ _) hne
  rest h hrely := (kept .idle).stable h hrely
  start _ _ hidle := ⟨(tickRule hinj).tick _ hidle.mark, fun _ hne => absurd (Subsingleton.elim _ _) hne⟩
  finish h := ⟨h.1, fun _ hne => absurd (Subsingleton.elim _ _) hne⟩
  env hok _ := .single ⟨_, hok, rfl⟩
  crash hok := hok.elim

end rule

end StreamConfig

end Stunks.Indexer
