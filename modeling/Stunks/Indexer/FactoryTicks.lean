import Mathlib.Data.List.ReduceOption
import Stunks.Indexer.Recorded

namespace Stunks.Indexer

open Database Pons

namespace FactoryConfig

variable {H β : Type} {cfg : FactoryConfig H} {s s' : FactoryStore H}
  {w : World H (FactoryStore H)} {o : Answers (FactoryReply H)} {call : FactoryCall β}
  {answer : Except Failure β} {token : Address} {A : FactoryStore H → Prop}

theorem noteOwn_creators (h : call.deletes = false) (applied : Bool) :
    (cfg.noteOwn s applied call answer).creators = s.creators := by
  have hprepare : (s.prepare call).creators = s.creators := by cases call <;> rfl
  rw [noteOwn_eq h]
  split
  · unfold miss
    split <;> exact hprepare
  · exact hprepare

theorem exec_own_answer {a : β} (h : (cfg.exec (.ext call) o w).1 = .ok a) :
    (backend.ext call o w.base).1 = .ok a ∧ (cfg.exec (.ext call) o w).2.base =
      cfg.noteOwn (backend.ext call o w.base).2 true call (.ok a) := by
  cases hfault : o.fault with
  | none =>
    rw [exec_own_ok hfault] at h ⊢
    have heq : (backend.ext call o w.base).1 = .ok a := h
    exact ⟨heq, by rw [heq]⟩
  | some fault =>
    rw [exec_own_fault hfault] at h
    cases h

theorem createCreators_triple (hA : Steady A) (addresses : List Address) :
    cfg.protocol.Triple (cfg.With A) (FactoryCall.await (.createCreators addresses)) fun r =>
      cfg.With fun s => A s ∧ ∀ count, r = .ok count →
        ∀ address ∈ addresses, address ∈ s.creators := by
  refine own rfl trivial fun w o hw hgrows => ⟨hA hgrows hw.2, fun count hok address haddress => ?_⟩
  rw [(exec_own_answer hok).2, noteOwn_creators rfl]
  obtain ⟨r, hr, rfl⟩ : ∃ r ∈ Table.insertMany id w.base.creators addresses, id r = id address :=
    Table.exists_key_insertMany haddress
  exact hr

theorem findCreators_triple (hA : Steady A) (addresses : List Address) :
    cfg.protocol.Triple
      (cfg.With fun s => A s ∧ ∀ address ∈ addresses, address ∈ s.creators)
      (FactoryCall.await (.findCreators addresses)) fun r => cfg.With fun s => A s ∧
        ∀ creators, r = .ok creators → ∀ address ∈ addresses, address ∈ creators := by
  refine own rfl trivial fun w o hw hgrows => ⟨hA hgrows hw.2.1, fun creators hok => ?_⟩
  obtain ⟨hanswer, -⟩ := exec_own_answer hok
  cases hanswer
  exact fun address haddress => List.mem_filter.mpr
    ⟨haddress, decide_eq_true (hw.2.2 address haddress)⟩

theorem createTokens_triple (hinj : Function.Injective cfg.curveOf) (hA : Steady A)
    {rows : List Token} (hrows : ∀ row ∈ rows, row.curveAddress = cfg.curveOf row.address) :
    cfg.protocol.Triple (cfg.With A) (FactoryCall.await (.createTokens rows)) fun r =>
      cfg.With fun s => A s ∧ ∀ count, r = .ok count →
        ∀ row ∈ rows, s.stored row.address = true := by
  refine own rfl hrows fun w o hw hgrows => ⟨hA hgrows hw.2, fun count hok row hrow => ?_⟩
  obtain ⟨r, hr, haddress⟩ := insertTokens_stored hinj hrows hw.1.curves row hrow
  rw [stored_iff, (exec_own_answer hok).2, noteOwn_tokens rfl]
  exact ⟨r, hr, haddress⟩

theorem ensureCreators_triple (hA : Steady A) (addresses : List Address) :
    cfg.protocol.Triple (cfg.With A) (ensureCreators addresses) fun r => cfg.With fun s =>
      A s ∧ ∀ count creators, r = .ok (count, creators) → ∀ address ∈ addresses,
        address ∈ creators := by
  refine .bind (own_steady hA rfl trivial) (fun existing => ?_) fun _ _ hs => ⟨hs.1, hs.2, nofun⟩
  dsimp only
  split
  · refine .bind (createCreators_triple hA _) (fun count => ?_) fun _ _ hs => ⟨hs.1, hs.2.1, nofun⟩
    refine .imp (.bind (findCreators_triple hA _) (fun created => ?_)
      fun _ _ hs => ⟨hs.1, hs.2.1, nofun⟩) (fun _ hs => ⟨hs.1, hs.2.1, hs.2.2 _ rfl⟩) fun _ _ hs => hs
    refine .done With.kept fun _ hs => ⟨hs.1, hs.2.1, ?_⟩
    rintro _ _ ⟨⟩ address haddress
    by_cases hold : address ∈ existing
    · exact List.mem_append_left _ hold
    · exact List.mem_append_right _ (hs.2.2 _ rfl address (by simp [haddress, hold]))
  · rename_i hmissing
    refine .done With.kept fun _ hs => ⟨hs.1, hs.2, ?_⟩
    rintro _ _ ⟨⟩ address haddress
    by_contra hold
    exact hmissing (List.length_pos_of_mem (List.mem_filter.mpr ⟨haddress, decide_eq_true hold⟩))

theorem mem_tokenRows {creators : List Address} {unique : List LaunchRecordInput} {row : Token} :
    row ∈ tokenRows creators unique ↔
      ∃ launch ∈ unique, launch.creatorAddress ∈ creators ∧ toTokenRow launch = row := by
  simp [tokenRows, and_assoc]

theorem recordLaunches_triple (hinj : Function.Injective cfg.curveOf) (hA : Steady A)
    {launches : List LaunchRecordInput}
    (hown : ∀ launch ∈ launches, launch.curveAddress = cfg.curveOf launch.address) :
    cfg.protocol.Triple (cfg.With A) (recordLaunches launches) fun r => cfg.With fun s =>
      A s ∧ ∀ result, r = .ok result → ∀ launch ∈ launches, s.stored launch.address = true := by
  unfold recordLaunches
  split
  · rename_i hempty
    rw [List.length_eq_zero_iff] at hempty
    exact .done With.kept fun _ hs => ⟨hs.1, hs.2, fun _ _ => by simp [hempty]⟩
  refine .bind (ensureCreators_triple hA _) (fun result => ?_) fun _ _ hs => ⟨hs.1, hs.2.1, nofun⟩
  obtain ⟨count, creators⟩ := result
  dsimp only
  have hrows : ∀ row ∈ tokenRows creators (Table.upsertMany LaunchRecordInput.address [] launches),
      row.curveAddress = cfg.curveOf row.address := by
    intro row hrow
    obtain ⟨launch, hlaunch, -, rfl⟩ := mem_tokenRows.mp hrow
    exact hown launch ((Table.of_mem_upsertMany hlaunch).resolve_right nofun)
  intro w ⟨hinv, hs, hcreators⟩
  -- The creators of all launches are there, so that each has a row.
  have hcovers : ∀ launch ∈ launches, ∃ row ∈ tokenRows creators
      (Table.upsertMany LaunchRecordInput.address [] launches), row.address = launch.address := by
    intro launch hlaunch
    obtain ⟨last, hlast, haddress⟩ :
        ∃ last ∈ Table.upsertMany LaunchRecordInput.address [] launches,
        last.address = launch.address := Table.exists_key_of_upsertMany hlaunch
    refine ⟨_, mem_tokenRows.mpr ⟨last, hlast, hcreators _ _ rfl _ ?_, rfl⟩, haddress⟩
    exact List.mem_eraseDups.mpr (List.mem_map_of_mem hlast)
  split
  · refine Protocol.Triple.bind (createTokens_triple hinj hA hrows) (fun created => ?_)
      (fun _ _ hs => ⟨hs.1, hs.2.1, nofun⟩) w ⟨hinv, hs⟩
    refine .done With.kept fun _ hs => ⟨hs.1, hs.2.1, fun _ _ launch hlaunch => ?_⟩
    obtain ⟨row, hrow, haddress⟩ := hcovers launch hlaunch
    exact haddress ▸ hs.2.2 _ rfl row hrow
  · rename_i hnone
    refine Protocol.Triple.done With.kept (fun _ hs => ⟨hs.1, hs.2, fun _ _ launch hlaunch => ?_⟩) w
      ⟨hinv, hs⟩
    obtain ⟨row, hrow, -⟩ := hcovers launch hlaunch
    exact absurd (List.length_pos_of_mem hrow) hnone

theorem syncPhases_triple (hA : Steady A) (tokens : List Address) :
    cfg.protocol.Triple (cfg.With A) (syncPhases tokens) fun _ => cfg.With A := by
  induction tokens with
  | nil => exact .done With.kept fun _ hs => hs
  | cons token tokens ih =>
    refine .bind (Q := fun _ => cfg.With A) ?_ (fun _ => .bind ih
      (fun _ => .done With.kept fun _ hs => hs) fun _ _ hs => hs) fun _ _ hs => hs
    refine .bind (own_steady hA rfl trivial) (fun existing => ?_) fun _ _ hs => hs
    cases existing with
    | none => exact .done With.kept fun _ hs => hs
    | some existing =>
      refine .bind (Q := fun _ => cfg.With A) ((readLaunchedToken_triple hA).imp (fun _ hs => hs)
        fun r _ hs => ?_) (fun launch => ?_) fun _ _ hs => hs
      · cases r with
        | ok _ => exact ⟨hs.1, hs.2.1.1⟩
        | error _ => exact ⟨hs.1, hs.2.1⟩
      · split
        · exact .done With.kept fun _ hs => hs
        · split
          · exact .done With.kept fun _ hs => hs
          · exact .bind (own_steady hA rfl trivial) (fun _ => .done With.kept fun _ hs => hs)
              fun _ _ hs => hs

theorem launchLog_eq {decode : RawLog H → Option PonsEvent} {log : RawLog H}
    {entry : TokenLaunched × RawLog H} : launchLog decode log = some entry ↔
      decode log = some (.tokenLaunched entry.1) ∧ log = entry.2 := by
  unfold launchLog
  split
  · rename_i args heq
    rw [heq]
    obtain ⟨args', raw⟩ := entry
    simp
  · rename_i hne
    simp only [reduceCtorEq, false_iff, not_and]
    exact fun heq => absurd heq (hne entry.1)

theorem exists_entry {entries : List (TokenLaunched × RawLog H)}
    {prepared : List (Option LaunchRecordInput)} {input : LaunchRecordInput}
    (h : List.Forall₂ (fun entry input => cfg.Answered s entry.1 input) entries prepared)
    (hinput : some input ∈ prepared) :
    ∃ entry ∈ entries, input.address = entry.1.token ∧ input.curveAddress = entry.1.curve := by
  induction h with
  | nil => cases hinput
  | @cons entry _ _ _ hanswered _ ih =>
    rcases List.mem_cons.mp hinput with rfl | hrest
    · exact ⟨entry, List.mem_cons_self, hanswered⟩
    · obtain ⟨entry, hentry, hfacts⟩ := ih hrest
      exact ⟨entry, List.mem_cons_of_mem _ hentry, hfacts⟩

theorem exists_input {entries : List (TokenLaunched × RawLog H)}
    {prepared : List (Option LaunchRecordInput)} {entry : TokenLaunched × RawLog H}
    (h : List.Forall₂ (fun entry input => cfg.Answered s entry.1 input) entries prepared)
    (hentry : entry ∈ entries) : cfg.Excused s entry.1.token ∨
      ∃ input, some input ∈ prepared ∧ input.address = entry.1.token := by
  induction h with
  | nil => cases hentry
  | @cons _ answer _ _ hanswered _ ih =>
    rcases List.mem_cons.mp hentry with rfl | hrest
    · cases answer with
      | none => exact .inl hanswered
      | some input => exact .inr ⟨input, List.mem_cons_self, hanswered.1⟩
    · exact (ih hrest).imp_right fun ⟨input, hinput, haddress⟩ =>
        ⟨input, List.mem_cons_of_mem _ hinput, haddress⟩

theorem processFactoryLogs_triple (hinj : Function.Injective cfg.curveOf) {logs : List (RawLog H)}
    (hown : ∀ log ∈ logs, cfg.OwnCurve log) :
    cfg.protocol.Triple (cfg.With fun s => s.window = logs)
      (processFactoryLogs cfg.decodePonsLog logs) fun r => cfg.With fun s =>
        s.window = logs ∧ ∀ result, r = .ok result → cfg.Prepared s logs := by
  have hwindow : Steady fun s : FactoryStore H => s.window = logs :=
    fun hgrows h => hgrows.window.trans h
  refine .bind (own_steady hwindow rfl trivial) (fun _ => ?_) fun _ _ hs => ⟨hs.1, hs.2, nofun⟩
  refine .bind (prepareLaunches_triple hwindow) (fun prepared => ?_)
    fun _ _ ⟨_, _, _, heq, _⟩ => nomatch heq
  intro w ⟨hinv, hw, _, heq, hanswered⟩
  cases heq
  have hanswers : Steady fun s => s.window = logs ∧ List.Forall₂
      (fun entry input => cfg.Answered s entry.1 input)
      (logs.filterMap (launchLog cfg.decodePonsLog))
      prepared := fun hgrows h => ⟨hwindow hgrows h.1, h.2.imp fun _ _ ha => ha.grows hgrows⟩
  have hinputs : ∀ input ∈ prepared.reduceOption, input.curveAddress = cfg.curveOf input.address := by
    intro input hinput
    obtain ⟨entry, hentry, haddress, hcurve⟩ :=
      exists_entry hanswered (List.reduceOption_mem_iff.mp hinput)
    obtain ⟨log, hlog, hargs⟩ := List.mem_filterMap.mp hentry
    rw [hcurve, haddress]
    exact hown log hlog _ (launchLog_eq.mp hargs).1
  refine Protocol.Triple.bind (recordLaunches_triple hinj hanswers hinputs) (fun result => ?_)
    (fun _ _ hs => ⟨hs.1, hs.2.1.1, nofun⟩) w ⟨hinv, hw, hanswered⟩
  have hstored : Steady fun s => (s.window = logs ∧ List.Forall₂
      (fun entry input => cfg.Answered s entry.1 input)
      (logs.filterMap (launchLog cfg.decodePonsLog))
      prepared) ∧ ∀ input ∈ prepared.reduceOption, s.stored input.address = true :=
    fun hgrows h => ⟨hanswers hgrows h.1, fun input hinput => hgrows.stored _ (h.2 input hinput)⟩
  refine .imp (.bind (syncPhases_triple hstored _) (fun count => ?_)
    fun _ _ hs => ⟨hs.1, hs.2.1.1, nofun⟩) (fun _ hs => ⟨hs.1, hs.2.1, hs.2.2 _ rfl⟩) fun _ _ hs => hs
  refine .done With.kept fun _ ⟨hinv, ⟨hwindow, hanswered⟩, hstored⟩ => ⟨hinv, hwindow, ?_⟩
  intro _ _ log hlog args hargs
  have hentry : (args, log) ∈ logs.filterMap (launchLog cfg.decodePonsLog) :=
    List.mem_filterMap.mpr ⟨log, hlog, launchLog_eq.mpr ⟨hargs, rfl⟩⟩
  rcases exists_input hanswered hentry with hexcused | ⟨input, hinput, haddress⟩
  · exact hexcused
  · exact .inr (.inr (haddress ▸ hstored input (List.reduceOption_mem_iff.mpr hinput)))

theorem kept (p : Phase H) : cfg.protocol.Kept (cfg.holds p) where
  stable := fun h heq => heq ▸ h
  keep := And.left

theorem exec_base {γ : Type} {c : Call H FactoryCall γ} (hown : c.isOwn = false)
    (hnote : ∀ s applied answer, cfg.note s applied c answer = s) :
    (cfg.exec c o w).2.base = w.base := by
  simp only [exec, hnote]
  exact backend.exec_base hown

theorem exec_getLogs (query : LogQuery) :
    (∃ error, cfg.exec (.getLogs query) o w = (.error error, w)) ∨
      cfg.exec (.getLogs query) o w =
        (.ok o.ext.batch, { w with base := { w.base with window := o.ext.batch.logs } }) := by
  cases hfault : o.fault with
  | none => exact .inr (by simp [exec, Backend.exec_ok _ hfault, Backend.perform, note, backend])
  | some fault =>
    have hexec : backend.exec (.getLogs query) o w = (.error fault.failure, w) :=
      Backend.exec_request _ hfault rfl
    exact .inl ⟨fault.failure, by simp only [exec, hexec, note]⟩

theorem exec_advance {stream : IndexerStream} {toBlock : Nat} {blockHash : H} :
    (cfg.exec (.updateState stream (.advance toBlock blockHash)) o w).2.base = w.base ∨
      (cfg.exec (.updateState stream (.advance toBlock blockHash)) o w).2.base =
        { w.base with scanned := w.base.scanned ++ w.base.window } := by
  have hbase : (backend.exec (.updateState stream (.advance toBlock blockHash)) o w).2.base = w.base :=
    Backend.exec_base _ rfl
  cases happlied : o.applied with
  | false => exact .inl (by simp only [exec, note, happlied]; exact hbase)
  | true => exact .inr (by simp only [exec, note, happlied, hbase]; rfl)

variable [DecidableEq H]

omit [DecidableEq H] in
theorem holds_of_base {p : Phase H} {w' : World H (FactoryStore H)} (h : cfg.holds p w)
    (hbase : w'.base = w.base) : cfg.holds p w' := by
  unfold holds at h ⊢
  rwa [hbase]

omit [DecidableEq H] in
theorem Inv.pass {logs : List (RawLog H)} (h : cfg.Inv s) (hwindow : s.window = logs)
    (hprepared : cfg.Prepared s logs) (hmissed : s.missed = false) :
    cfg.Inv { s with scanned := s.scanned ++ s.window } where
  recorded := fun log hlog args hargs hexists => by
    rcases List.mem_append.mp hlog with hold | hnew
    · exact h.recorded log hold args hargs hexists
    · rcases hprepared log (hwindow ▸ hnew) args hargs with hmiss | hnot | hstored
      · exact absurd (hmissed.symm.trans hmiss) Bool.false_ne_true
      · exact absurd (hnot.symm.trans hexists) Bool.false_ne_true
      · exact hstored
  curves := h.curves

theorem holds_step {p : Phase H} {γ : Type} {c : Call H FactoryCall γ}
    {next : Except Failure γ → Phase H} (hc : Awaits cfg.options p c next) (h : cfg.holds p w)
    (hok : cfg.protocol.allow c o w) :
    cfg.holds (next (cfg.exec c o w).1) (cfg.exec c o w).2 := by
  have hsame (hown : c.isOwn = false) (hnote : ∀ s applied answer, cfg.note s applied c answer = s)
      {q : Phase H} (hq : cfg.holds q w) : cfg.holds q (cfg.exec c o w).2 :=
    holds_of_base hq (exec_base hown hnote)
  have hidle : cfg.holds .idle w := ⟨h.1, trivial⟩
  cases hc with
  | load =>
    refine hsame rfl (fun _ _ _ => rfl) ?_
    exact Phase.holds_afterLoad (K := (cfg.holds · w)) hidle fun _ _ => ⟨h.1, trivial⟩
  | check =>
    refine hsame rfl (fun _ _ _ => rfl) ?_
    exact Phase.holds_afterCheck (K := (cfg.holds · w)) ⟨h.1, trivial⟩ fun _ _ => ⟨h.1, trivial⟩
  | rewind =>
    refine hsame rfl (fun _ _ _ => ite_self _) ?_
    exact Phase.holds_after (K := (cfg.holds · w)) hidle fun _ _ => ⟨h.1, trivial⟩
  | look =>
    refine hsame rfl (fun _ _ _ => rfl) ?_
    exact Phase.holds_afterLook (K := (cfg.holds · w)) hidle ⟨h.1, trivial⟩ ⟨h.1, trivial⟩
  | pull =>
    refine hsame rfl (fun _ _ _ => ite_self _) ?_
    exact Phase.holds_after (K := (cfg.holds · w)) hidle fun _ _ => ⟨h.1, trivial⟩
  | head =>
    refine hsame rfl (fun _ _ _ => rfl) ?_
    exact Phase.holds_after (K := (cfg.holds · w)) hidle fun _ _ => ⟨h.1, trivial⟩
  | @fetch checkpoint boundary addresses =>
    rcases @exec_getLogs H cfg w o
      { fromBlock := checkpoint.lastProcessedBlock + 1, toBlock := boundary, addresses,
        topics0 := cfg.options.topics0 } with ⟨error, heq⟩ | heq
    · rw [heq]
      exact hidle
    · rw [heq]
      simp only [Phase.after, Phase.afterFetch]
      split
      · exact ⟨⟨h.1.recorded, h.1.curves⟩, trivial⟩
      · exact ⟨⟨h.1.recorded, h.1.curves⟩, rfl, hok.2⟩
  | hash =>
    refine hsame rfl (fun _ _ _ => rfl) ?_
    exact Phase.holds_after (K := (cfg.holds · w)) hidle fun _ _ => h
  | reread =>
    refine hsame rfl (fun _ _ _ => rfl) ?_
    exact Phase.holds_afterReread (K := (cfg.holds · w)) hidle h
  | @advance checkpoint batch reachedHash =>
    have hinv : cfg.Inv (cfg.exec (.updateState cfg.options.stream
        (.advance batch.reachedBlock reachedHash)) o w).2.base := by
      rcases exec_advance with heq | heq
      · rw [heq]
        exact h.1
      · rw [heq]
        exact h.1.pass h.2.1 h.2.2 (by simpa [protocol, CallOk] using hok.1)
    exact Phase.holds_after (K := (cfg.holds · _)) ⟨hinv, trivial⟩ fun _ _ => ⟨hinv, trivial⟩
  | resolve =>
    refine hsame rfl (fun _ _ _ => rfl) ?_
    exact Phase.holds_after (K := (cfg.holds · w)) hidle fun _ _ => ⟨h.1, trivial⟩
  | recordError => exact hsame rfl (fun _ _ _ => ite_self _) hidle
  | recordFailedBlock => exact hsame rfl (fun _ _ _ => rfl) hidle

omit [DecidableEq H] in
theorem Inv.delete {blockNumber : Nat} (h : cfg.Inv s)
    (hkeeps : cfg.keepsScanned s blockNumber = true) :
    cfg.Inv { s with
      tokens := s.tokens.filter fun row => row.launchBlock ≤ blockNumber
      scanned := s.scanned.filter fun log => log.blockNumber ≤ blockNumber } where
  recorded := fun log hlog args hargs hexists => by
    obtain ⟨hscanned, hblock⟩ := List.mem_filter.mp hlog
    obtain ⟨row, hrow, haddress⟩ := stored_iff.mp (h.recorded log hscanned args hargs hexists)
    refine stored_iff.mpr ⟨row, List.mem_filter.mpr ⟨hrow, ?_⟩, haddress⟩
    have hkept := List.all_eq_true.mp hkeeps row hrow
    simp only [Bool.or_eq_true, List.all_eq_true] at hkept
    refine hkept.resolve_right fun hothers => ?_
    have hother := hothers log hscanned
    rw [hargs] at hother
    have hle : ¬ blockNumber < log.blockNumber := not_lt.mpr (of_decide_eq_true hblock)
    simp [hle, haddress] at hother
  curves := fun row hrow => h.curves row (List.mem_filter.mp hrow).1

omit [DecidableEq H] in
theorem deleteTokensAbove_inv {blockNumber : Nat} (h : cfg.Inv w.base)
    (hkeeps : cfg.keepsScanned w.base blockNumber = true) :
    cfg.Inv (cfg.exec (.ext (.deleteTokensAbove blockNumber)) o w).2.base := by
  cases hfault : o.fault with
  | none =>
    rw [exec_own_ok hfault]
    exact h.delete hkeeps
  | some fault =>
    rw [exec_own_fault hfault]
    cases fault.applied with
    | false => exact h
    | true => exact h.delete hkeeps

theorem tickRule (hinj : Function.Injective cfg.curveOf) :
    TickRule cfg.protocol cfg.options cfg.holds fun _ => True where
  kept := kept
  step hc _ _ hs hok := ⟨trivial, holds_step hc hs hok⟩
  passes hpass h := by cases hpass <;> exact ⟨h.1, trivial⟩
  settled _ _ := trivial
  deleteAbove checkpoint target := by
    refine .await (kept _) (fun r => kept _) fun w o hw hok => ⟨trivial, ?_⟩
    have hinv := deleteTokensAbove_inv (o := o) hw.1 hok.1
    change cfg.holds (Phase.after _ (cfg.exec _ o w).1) (cfg.exec _ o w).2
    cases (cfg.exec _ o w).1 <;> exact ⟨hinv, trivial⟩
  maxBlock _ _ hmax := nomatch hmax
  addresses checkpoint boundary := .done (kept _) fun _ hs => ⟨hs.1, trivial⟩
  process checkpoint batch reachedHash := by
    intro w hw
    refine Protocol.Triple.bind (processFactoryLogs_triple hinj hw.2.2) (fun result => ?_)
      (fun _ _ hs => ⟨hs.1, trivial⟩) w ⟨hw.1, hw.2.1⟩
    exact .done With.kept fun _ hs => ⟨hs.1, hs.2.1, hs.2.2 _ rfl⟩

end FactoryConfig

end Stunks.Indexer
