import Stunks.Indexer.FactoryTicks

namespace Stunks.Indexer

open Database Pons

namespace FactoryConfig

variable {H : Type} [DecidableEq H] (cfg : FactoryConfig H)

abbrev FactoryLabel (H : Type) := System.Label Unit (Answers (FactoryReply H)) Empty

/-- Every scanned launch up to the checkpoint has a row, if the chain has it. -/
def Recorded (w : World H (FactoryStore H)) : Prop :=
  ∀ state, w.tables.states .factory = some state →
    ∀ log ∈ w.base.scanned, log.blockNumber ≤ state.lastProcessedBlock →
      ∀ args, cfg.decodePonsLog log = some (.tokenLaunched args) →
        cfg.launchExists args.token = true → ∃ row ∈ w.base.tokens, row.address = args.token

def ownCurves (_ : RunState H) : FactoryLabel H → Bool
  | .call _ o => o.ext.batch.logs.all fun log =>
    match cfg.decodePonsLog log with
    | some (.tokenLaunched args) => args.curve = cfg.curveOf args.token
    | _ => true
  | _ => true

/-- The checkpoint does not pass a launch whose reads failed, and no rollback deletes a launch that
was scanned below it. -/
def launchesRead (c : RunState H) : FactoryLabel H → Bool
  | .call _ _ => c.pending () fun call => cfg.CallOk call c.world.base
  | _ => true

def emptyStore : World H (FactoryStore H) := { tables := .empty, base := .empty }

abbrev FreshRun (ok : RunState H → FactoryLabel H → Prop) := cfg.system.Run ok (.rest emptyStore)

variable {cfg}

omit [DecidableEq H] in
theorem ownCurves_iff {c : RunState H} {o : Answers (FactoryReply H)} :
    cfg.ownCurves c (.call () o) = true ↔ ∀ log ∈ o.ext.batch.logs, cfg.OwnCurve log := by
  simp only [ownCurves, List.all_eq_true, OwnCurve]
  refine forall₂_congr fun log _ => ?_
  split
  · rename_i args heq
    simp [heq]
  · rename_i hne
    simp only [true_iff]
    exact fun args hargs => absurd hargs (hne args)

omit [DecidableEq H] in
theorem Inv.opened {s : FactoryStore H} (h : cfg.Inv s) : cfg.Inv s.opened := ⟨h.recorded, h.curves⟩

def outline (hinj : Function.Injective cfg.curveOf) : cfg.system.Outline
    fun c l => cfg.ownCurves c l = true ∧ cfg.launchesRead c l = true where
  protocol _ := cfg.protocol
  idle _ := cfg.holds .idle
  post _ := TickRule.Outcome cfg.holds fun _ => True
  exec _ _ _ _ _ := rfl
  allow hok htask := ⟨by
    have hread := hok.2
    simpa only [launchesRead, System.Config.pending_eq htask] using hread, ownCurves_iff.mp hok.1⟩
  peer hne := absurd (Subsingleton.elim _ _) hne
  rest h heq := heq ▸ h
  start _ _ hidle := ⟨(tickRule hinj).tick _ ⟨hidle.1.opened, trivial⟩,
    fun _ hne => absurd (Subsingleton.elim _ _) hne⟩
  finish h := ⟨h.1, fun _ hne => absurd (Subsingleton.elim _ _) hne⟩
  env := @fun _ e => nomatch e
  crash _ h i := by
    obtain ⟨hnone, hsome⟩ := h i
    exact (em _).elim hnone fun htask => ⟨hsome htask, trivial⟩

theorem launches_recorded (hinj : Function.Injective cfg.curveOf) {ls : List (FactoryLabel H)}
    {c : RunState H}
    (hrun : cfg.FreshRun (fun c l => cfg.ownCurves c l = true ∧ cfg.launchesRead c l = true) ls c) :
    cfg.Recorded c.world := by
  have hempty : cfg.Inv (FactoryStore.empty (H := H)) :=
    ⟨fun _ h => (nomatch h), fun _ h => (nomatch h)⟩
  have hinv := (outline hinj).inv_run ((outline hinj).inv_rest fun _ => ⟨hempty, trivial⟩) hrun
  have hkeep : cfg.Inv c.world.base := (outline hinj).keep_of_inv (i := ()) hinv fun _ hs => hs.1
  intro state _ log hlog _ args hargs hexists
  exact stored_iff.mp (hkeep.recorded log hlog args hargs hexists)

section sample

def sample : FactoryConfig Nat where
  startBlock := 0
  confirmationDepth := 1
  factory := 1
  factoryTopics := []
  curveTopics := []
  decodePonsLog log := some (.tokenLaunched
    { token := log.transactionHash, curve := log.transactionHash + 1, deployer := 2, pairToken := 0,
      launchConfigId := 0 })
  launchExists _ := true
  curveOf token := token + 1

def sampleReply : FactoryReply Nat where
  batch :=
    { logs := [{ address := 1, topics := [], data := [], blockNumber := 2, blockHash := 2,
                 transactionHash := 7, logIndex := 0 }]
      reachedBlock := 3 }
  hash := some 3
  launched :=
    { creatorFeeRecipient := 2, graduationThreshold := 40, poolFee := 1, tickSpacing := 1,
      creatorTaxBps := 0, buybackEnabled := false, phase := 0, exists_ := true }
  metadata := { name := "name", symbol := "symbol", decimals := 18, totalSupply := 1000 }
  curveState :=
    { curve := 6, pairToken := 0, pricingQuoteReserve := 10, realQuoteReserve := 0,
      tokenReserve := 1000, phantomQuote := 10, reservedTokens := 200, graduationThreshold := 40,
      feeBps := 100, creatorTaxBps := 0, graduated := false, readyToGraduate := false,
      launchedAt := 0, snipeTaxStartBps := 0, snipeTaxSeconds := 0 }
  number := 0
  input := []

def sampleAnswer : Answers (FactoryReply Nat) :=
  { fault := none, head := 4, reached := 0, ext := sampleReply }

def sampleTimeout : Answers (FactoryReply Nat) :=
  { sampleAnswer with fault := some ⟨.error none "timeout", false⟩ }

def sampleTick : List (FactoryLabel Nat) :=
  .start () :: (List.replicate 17 sampleAnswer).map (.call ())

def unreadTick : List (FactoryLabel Nat) :=
  .start () :: (List.replicate 5 sampleAnswer ++ sampleTimeout :: List.replicate 3 sampleAnswer).map
    (.call ())

def passed (c : RunState Nat) : Bool :=
  match c.tasks (), c.world.tables.states .factory with
  | some (.done (.ok _)), some state =>
    c.world.base.scanned.any fun log => log.blockNumber ≤ state.lastProcessedBlock
  | _, _ => false

end sample

theorem launches_recorded_sample : ∃ c : RunState Nat, passed c = true ∧ sample.Recorded c.world := by
  obtain ⟨c, hrun, hpassed⟩ : ∃ c, sample.FreshRun
      (fun c l => sample.ownCurves c l = true ∧ sample.launchesRead c l = true) sampleTick c ∧
        passed c = true :=
    System.Run.exists_of_any (by decide)
  exact ⟨c, hpassed, launches_recorded (fun _ _ => Nat.succ.inj) hrun⟩

theorem unread_launch_passed : ∃ c : RunState Nat,
    sample.FreshRun (fun c l => sample.ownCurves c l = true) unreadTick c ∧
      ¬ sample.Recorded c.world := by
  obtain ⟨c, hrun, htest⟩ :
      ∃ c, sample.FreshRun (fun c l => sample.ownCurves c l = true) unreadTick c ∧
      (passed c && c.world.base.tokens.isEmpty) = true :=
    System.Run.exists_of_any (by decide)
  refine ⟨c, hrun, fun hrecorded => ?_⟩
  simp only [passed, Bool.and_eq_true, List.isEmpty_iff] at htest
  obtain ⟨hpassed, hempty⟩ := htest
  split at hpassed
  · rename_i state _ hstate
    obtain ⟨log, hlog, hle⟩ := List.any_eq_true.mp hpassed
    obtain ⟨row, hrow, -⟩ := hrecorded state hstate log hlog (of_decide_eq_true hle) _ rfl rfl
    rw [hempty] at hrow
    cases hrow
  · cases hpassed

end FactoryConfig

end Stunks.Indexer
