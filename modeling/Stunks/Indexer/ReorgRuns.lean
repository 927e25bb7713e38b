import Stunks.Indexer.Reorgs

namespace Stunks.Indexer

open Database

namespace StreamConfig

variable {H : Type} [DecidableEq H] (cfg : StreamConfig) (hash : Chain → H)

abbrev RunLabel := System.Label Unit (Answers (Option Nat)) Chain

def oneReorg (c : RunState H) : RunLabel → Bool
  | .call _ o => o.fault.isNone || c.pending () fun call => call.isRequest
  | .env chain => decide (UniqueKeys chain) &&
      (decide (c.world.base.chain <+: chain) || (!c.world.base.forked && cfg.deep c.world chain))
  | .crash => false
  | _ => true

def evidenceKept (c : RunState H) : RunLabel → Bool
  | .call _ _ => c.pending () fun call => !call.isAdvance || cfg.keepsEvidence hash c.world
  | _ => true

abbrev FreshRun (ok : RunState H → RunLabel → Prop) (chain : Chain) :=
  (cfg.system hash).Run ok (.rest (Ledger.fresh chain))

variable {cfg hash}

omit [DecidableEq H] in
theorem fresh_idle {chain : Chain} (hkeys : UniqueKeys chain) :
    cfg.Idle hash (Ledger.fresh (H := H) chain) :=
  ⟨⟨hkeys, List.nodup_nil⟩, fun _ => rfl, fun _ hrow => nomatch hrow⟩

theorem exact_of_steps (hinj : Function.Injective hash) {chain : Chain} (hkeys : UniqueKeys chain)
    {ls : List RunLabel} {c : RunState H} (hrun : cfg.FreshRun hash (cfg.Steps hash) chain ls c)
    {r : Except Failure ScanTickResult} (hreturn : c.tasks () = some (.done r))
    (hcaught : caughtUp r) (hquiet : c.world.base.quiet = true) : cfg.Exact hash c.world :=
  let P := cfg.outline hash hinj
  (P.returned (P.inv_rest fun _ => fresh_idle hkeys) hrun hreturn).2 hcaught hquiet

section sample

def sample : StreamConfig where
  stream := .factory
  startBlock := 0
  confirmationDepth := 1
  addresses := []
  topics0 := none
  requireAddresses := false
  hasCeiling := false
  cascadeStreams := []
  others := by simp

def sampleBlock (transactionHash : Hex) : Block where
  entries := [{ address := 7, topics := [], data := [], transactionHash, logIndex := 0 }]
  salt := 0

def emptyBlock (salt : Nat) : Block := { entries := [], salt }

def sampleChain : Chain :=
  [emptyBlock 0, sampleBlock 1, sampleBlock 2, emptyBlock 0, emptyBlock 0]

def sampleFork : Chain :=
  [emptyBlock 0, sampleBlock 1, emptyBlock 1, sampleBlock 3, emptyBlock 1]

def deeperFork : Chain :=
  [emptyBlock 0, emptyBlock 2, emptyBlock 2, emptyBlock 2, emptyBlock 2]

def shallowFork : Chain :=
  [emptyBlock 0, sampleBlock 1, emptyBlock 1, emptyBlock 3, emptyBlock 3]

def answer (head : Nat) : Answers (Option Nat) :=
  { fault := none, head, reached := head, ext := none }

def timeout (head : Nat) : Answers (Option Nat) :=
  { answer head with fault := some ⟨.error none "timeout", false⟩ }

def tickLabels (answers : List (Answers (Option Nat))) : List RunLabel :=
  .start () :: answers.map (.call ())

def firstTick : List RunLabel := tickLabels (List.replicate 8 (answer 3)) ++ [.finish ()]

def rollbackTick : List RunLabel := tickLabels (List.replicate 4 (answer 4)) ++ [.finish ()]

def lastTick : List RunLabel := tickLabels (List.replicate 8 (answer 4))

def unreadHash : List RunLabel :=
  firstTick ++ .env sampleFork :: tickLabels (answer 4 :: timeout 4 :: List.replicate 7 (answer 4)) ++
    .finish () :: tickLabels (List.replicate 3 (answer 4))

def unreadHead : List RunLabel :=
  firstTick ++ tickLabels [answer 4, answer 4, timeout 4, answer 4] ++ .finish () ::
    .env sampleFork :: rollbackTick ++ lastTick

def twoReorgs : List RunLabel :=
  firstTick ++ .env sampleFork :: rollbackTick ++ .env deeperFork :: lastTick

def twoReorgsApart : List RunLabel :=
  firstTick ++ .env sampleFork :: rollbackTick ++ lastTick ++ .finish () :: .env shallowFork ::
    rollbackTick ++ lastTick

def caught (c : RunState H) : Bool :=
  match c.tasks () with
  | some (.done (.ok r)) => r.caughtUp && r.confirmedHead.isSome && c.world.base.quiet
  | _ => false

def strays (cfg : StreamConfig) (hash : Chain → H) (c : RunState H) : Bool :=
  match cfg.recorded c.world with
  | some state => c.world.base.rows.any fun row => row.blockNumber ≤ state.lastProcessedBlock &&
      !(logsAt hash c.world.base.chain row.blockNumber).contains row
  | none => false

omit [DecidableEq H] in
theorem returned_of_caught {c : RunState H} (h : caught c = true) :
    ∃ r, c.tasks () = some (.done r) ∧ caughtUp r ∧ c.world.base.quiet = true := by
  unfold caught at h
  split at h
  · rename_i r hreturn
    simp only [Bool.and_eq_true] at h
    exact ⟨.ok r, hreturn, ⟨h.1.1, h.1.2⟩, h.2⟩
  · cases h

theorem not_exact_of_strays {c : RunState H} (h : cfg.strays hash c = true) :
    ¬ cfg.Exact hash c.world := by
  intro hexact
  unfold strays at h
  split at h
  · rename_i state hrow
    obtain ⟨row, hmem, hstray⟩ := List.any_eq_true.mp h
    simp only [Bool.and_eq_true, decide_eq_true_eq, Bool.not_eq_true', List.contains_eq_mem,
      decide_eq_false_iff_not] at hstray
    exact hstray.2 ((hexact state hrow).2.1 row hmem hstray.1).1
  · cases h

end sample

theorem steps_of_oneReorg {c : RunState H} {l : RunLabel} (hreorg : cfg.oneReorg c l = true)
    (hkept : cfg.evidenceKept hash c l = true) : cfg.Steps hash c l := by
  cases l with
  | start _ => trivial
  | finish _ => trivial
  | crash => cases hreorg
  | call i o =>
    intro β call next htask
    simp only [oneReorg, evidenceKept, System.Config.pending_eq htask, Bool.or_eq_true] at hreorg hkept
    constructor
    · intro hfault
      cases hreorg with
      | inl hnone => exact absurd (Option.isNone_iff_eq_none.mp hnone) hfault
      | inr hreq => exact hreq
    · intro hadvance
      exact .inr (by simpa [hadvance] using hkept)
  | env chain =>
    simp only [oneReorg, Bool.and_eq_true, Bool.or_eq_true, decide_eq_true_eq,
      Bool.not_eq_true'] at hreorg
    obtain ⟨hkeys, hgrow | ⟨hforked, hdeep⟩⟩ := hreorg
    · exact ⟨hkeys, .inl hgrow⟩
    · refine ⟨hkeys, .inr ⟨hdeep, fun hfork => ?_⟩⟩
      exact absurd (hforked.symm.trans hfork) (by simp)

theorem rows_exact_of_evidence (hinj : Function.Injective hash) {chain : Chain}
    (hkeys : UniqueKeys chain) {ls : List RunLabel} {c : RunState H}
    (hrun : cfg.FreshRun hash (fun c l => cfg.oneReorg c l = true ∧ cfg.evidenceKept hash c l = true)
      chain ls c) {r : Except Failure ScanTickResult} (hreturn : c.tasks () = some (.done r))
    (hcaught : caughtUp r) (hquiet : c.world.base.quiet = true) : cfg.Exact hash c.world := by
  have hsteps : cfg.FreshRun hash (cfg.Steps hash) chain ls c :=
    (hrun.transfer (I := fun _ => True) (fun _ hs =>
      ⟨trivial, steps_of_oneReorg hs.1.1 hs.1.2, hs.2⟩) trivial).2
  exact exact_of_steps hinj hkeys hsteps hreturn hcaught hquiet

theorem rows_exact_of_evidence_sample : ∃ c : RunState Chain,
    (∃ r, c.tasks () = some (.done r) ∧ caughtUp r) ∧ c.world.base.forked = true ∧
      sample.Exact id c.world := by
  obtain ⟨c, hrun, htest⟩ : ∃ c : RunState Chain, sample.FreshRun id
      (fun c l => sample.oneReorg c l = true ∧ sample.evidenceKept id c l = true) sampleChain
      unreadHead c ∧ (caught c && c.world.base.forked) = true :=
    System.Run.exists_of_any (by decide)
  obtain ⟨hcaught, hforked⟩ := Bool.and_eq_true_iff.mp htest
  obtain ⟨r, hreturn, hr, hquiet⟩ := returned_of_caught hcaught
  exact ⟨c, ⟨r, hreturn, hr⟩, hforked,
    rows_exact_of_evidence Function.injective_id (by decide) hrun hreturn hr hquiet⟩

/-- The check of the second tick fails, and its advance overwrites the hash. -/
theorem unread_hash_overwritten : ∃ (c : RunState Chain) (r : Except Failure ScanTickResult),
    sample.FreshRun id (fun c l => sample.oneReorg c l = true) sampleChain unreadHash c ∧
      c.tasks () = some (.done r) ∧ caughtUp r ∧ c.world.base.quiet = true ∧
      ¬ sample.Exact id c.world := by
  obtain ⟨c, hrun, htest⟩ : ∃ c : RunState Chain, sample.FreshRun id
      (fun c l => sample.oneReorg c l = true) sampleChain unreadHash c ∧
        (caught c && sample.strays id c) = true :=
    System.Run.exists_of_any (by decide)
  obtain ⟨hcaught, hstrays⟩ := Bool.and_eq_true_iff.mp htest
  obtain ⟨r, hreturn, hr, hquiet⟩ := returned_of_caught hcaught
  exact ⟨c, r, hrun, hreturn, hr, hquiet, not_exact_of_strays hstrays⟩

/-- Every request succeeds.  The chain grows at any time, and between ticks it is reorganised above
the checkpoint less the confirmation depth. -/
def betweenTicks (c : RunState H) : RunLabel → Bool
  | .call _ o => o.fault.isNone && c.pending () fun call => call.finds c.world.base.chain
  | .env chain => decide (UniqueKeys chain) &&
      (decide (c.world.base.chain <+: chain) || ((c.tasks ()).isNone && cfg.deep c.world chain))
  | .crash => false
  | _ => true

/-- A reorg that comes while no hash is recorded leaves the blocks up to the checkpoint in place, or
finds nothing stored. -/
def hashOrSpared (c : RunState H) : RunLabel → Bool
  | .env chain => decide (c.world.base.chain <+: chain) || cfg.sparesUnrecorded c.world chain
  | _ => true

def Undisturbed (c : RunState H) : Prop := c.tasks () ≠ none → c.world.base.quiet = true

omit [DecidableEq H] in
theorem exec_quiet {β : Type} {call : Call H (StreamCall H) β} {o : Answers (Option Nat)}
    {w : World H (Ledger H)} (ho : o.fault = none) (hfinds : call.finds w.base.chain = true) :
    (exec hash call o w).2.base.quiet = w.base.quiet := by
  cases call with
  | blockHash n => rw [exec_blockHash ho (of_decide_eq_true hfinds)]; rfl
  | getLogs query => rw [exec_getLogs ho]; rfl
  | ext call => cases call <;> rw [exec_ok ho] <;> rfl
  | _ => rw [exec_ok ho]; rfl

theorem undisturbed_step {c c' : RunState H} {l : RunLabel} (h : Undisturbed c)
    (hreorg : cfg.betweenTicks c l = true) (hstep : (cfg.system hash).step c l = some c') :
    Undisturbed c' := by
  cases l with
  | start i =>
    obtain ⟨-, -, rfl⟩ := System.step_start hstep
    exact fun _ => rfl
  | call i o =>
    obtain ⟨β, call, next, htask, rfl⟩ := System.step_call hstep
    simp only [betweenTicks, Bool.and_eq_true, System.Config.pending_eq htask] at hreorg
    have hquiet := h (by simp [htask])
    exact fun _ => (exec_quiet (Option.isNone_iff_eq_none.mp hreorg.1) hreorg.2).trans hquiet
  | finish i =>
    obtain ⟨r, -, rfl⟩ := System.step_finish hstep
    exact fun hne => absurd (System.Config.set_tasks_self ..) hne
  | env chain =>
    cases hstep
    intro hne
    simp only [betweenTicks, Bool.and_eq_true, Bool.or_eq_true, decide_eq_true_eq,
      Option.isNone_iff_eq_none] at hreorg
    obtain ⟨-, hgrow | ⟨hidle, -⟩⟩ := hreorg
    · exact (moved_grow hgrow).1.trans (h hne)
    · exact absurd hidle hne
  | crash => cases hreorg

theorem steps_of_betweenTicks {c : RunState H} {l : RunLabel} (h : Undisturbed c)
    (hreorg : cfg.betweenTicks c l = true) (hspared : cfg.hashOrSpared c l = true) :
    cfg.Steps hash c l := by
  cases l with
  | start _ => trivial
  | finish _ => trivial
  | crash => cases hreorg
  | call i o =>
    intro β call next htask
    simp only [betweenTicks, Bool.and_eq_true] at hreorg
    refine ⟨fun hfault => absurd (Option.isNone_iff_eq_none.mp hreorg.1) hfault, fun _ => ?_⟩
    exact .inl (h (by simp [htask]))
  | env chain =>
    simp only [betweenTicks, hashOrSpared, Bool.and_eq_true, Bool.or_eq_true, decide_eq_true_eq,
      Option.isNone_iff_eq_none] at hreorg hspared
    obtain ⟨hkeys, hgrow | ⟨-, hdeep⟩⟩ := hreorg
    · exact ⟨hkeys, .inl hgrow⟩
    · exact ⟨hkeys, hspared.imp_right fun hspares => ⟨hdeep, fun _ => hspares⟩⟩

theorem rows_exact_after_reorgs (hinj : Function.Injective hash) {chain : Chain}
    (hkeys : UniqueKeys chain) {ls : List RunLabel} {c : RunState H}
    (hrun : cfg.FreshRun hash (fun c l => cfg.betweenTicks c l = true ∧ cfg.hashOrSpared c l = true)
      chain ls c) {r : Except Failure ScanTickResult} (hreturn : c.tasks () = some (.done r))
    (hcaught : caughtUp r) : cfg.Exact hash c.world := by
  have hstart : Undisturbed (System.Config.rest (Ledger.fresh chain) : RunState H) :=
    fun hne => absurd rfl hne
  obtain ⟨hundisturbed, hsteps⟩ : Undisturbed c ∧ cfg.FreshRun hash (cfg.Steps hash) chain ls c :=
    hrun.transfer (I := Undisturbed) (fun h hs =>
      ⟨undisturbed_step h hs.1.1 hs.2, steps_of_betweenTicks h hs.1.1 hs.1.2, hs.2⟩) hstart
  exact exact_of_steps hinj hkeys hsteps hreturn hcaught (hundisturbed (by simp [hreturn]))

theorem rows_exact_after_reorgs_sample : ∃ c : RunState Chain,
    (∃ r, c.tasks () = some (.done r) ∧ caughtUp r) ∧ c.world.base.forked = true ∧
      sample.Exact id c.world := by
  obtain ⟨c, hrun, htest⟩ : ∃ c : RunState Chain, sample.FreshRun id
      (fun c l => sample.betweenTicks c l = true ∧ sample.hashOrSpared c l = true) sampleChain
      twoReorgsApart c ∧ (caught c && c.world.base.forked) = true :=
    System.Run.exists_of_any (by decide)
  obtain ⟨hcaught, hforked⟩ := Bool.and_eq_true_iff.mp htest
  obtain ⟨r, hreturn, hr, -⟩ := returned_of_caught hcaught
  exact ⟨c, ⟨r, hreturn, hr⟩, hforked,
    rows_exact_after_reorgs Function.injective_id (by decide) hrun hreturn hr⟩

/-- After the rollback no hash is left to tell of the second reorg. -/
theorem second_reorg_unseen : ∃ (c : RunState Chain) (r : Except Failure ScanTickResult),
    sample.FreshRun id (fun c l => sample.betweenTicks c l = true) sampleChain twoReorgs c ∧
      c.tasks () = some (.done r) ∧ caughtUp r ∧ ¬ sample.Exact id c.world := by
  obtain ⟨c, hrun, htest⟩ : ∃ c : RunState Chain, sample.FreshRun id
      (fun c l => sample.betweenTicks c l = true) sampleChain twoReorgs c ∧
        (caught c && sample.strays id c) = true :=
    System.Run.exists_of_any (by decide)
  obtain ⟨hcaught, hstrays⟩ := Bool.and_eq_true_iff.mp htest
  obtain ⟨r, hreturn, hr, -⟩ := returned_of_caught hcaught
  exact ⟨c, r, hrun, hreturn, hr, not_exact_of_strays hstrays⟩

end StreamConfig

end Stunks.Indexer
