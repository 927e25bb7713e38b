import Stunks.Indexer.Health
import Stunks.Indexer.Phases
import Stunks.Indexer.TickFaults
import Stunks.Lib.Concurrent

namespace Stunks.Indexer

open Database

variable {H X W β : Type} {P : Type → Type}

inductive Noted
  | processed (range : Nat × Nat)
  | advanced (toBlock : Nat)
  deriving DecidableEq

def noted (stream : IndexerStream) : Call H (SetupCall H) β → Answers X → Except Failure β →
    List Noted
  | .ext (.process _ range), _, .ok _ => [.processed range]
  | .updateState other (.advance toBlock _), o, _ =>
    if other = stream ∧ o.applied = true then [.advanced toBlock] else []
  | _, _, _ => []

abbrev NotedState (H W : Type) := World H W × List Noted

def PassedToProcess (history : List Noted) (block : Nat) : Prop :=
  ∃ range, .processed range ∈ history ∧ range.1 ≤ block ∧ block ≤ range.2

def PastStart (cfg : StreamSetup) (history : List Noted) : Prop :=
  ∃ toBlock, .advanced toBlock ∈ history ∧ cfg.startBlock < toBlock

def Call.target (stream : IndexerStream) : Call H P β → Option Nat
  | .upsertState other startBlock => if other = stream then some startBlock else none
  | .updateState other data => if other = stream then data.toBlock else none
  | _ => none

section exec

variable {B : Backend H P X W} {o : Answers X} {w : World H W} {call : Call H P β}
  {stream : IndexerStream}

theorem Backend.exec_target (call : Call H P β) (o : Answers X) {state : IndexerState H}
    (h : w.tables.states stream = some state) :
    ∃ state', (B.exec call o w).2.tables.states stream = some state' ∧
      (state'.lastProcessedBlock = state.lastProcessedBlock ∨
        call.target stream = some state'.lastProcessedBlock) := by
  cases call with
  | upsertState other startBlock =>
    cases hother : w.tables.states other with
    | some row =>
      rw [(B.exec_upsertState hother).1]
      exact ⟨state, h, .inl rfl⟩
    | none =>
      have hne : stream ≠ other := fun heq => by rw [heq, hother] at h; cases h
      rcases @Backend.exec_upsertState_new _ _ _ _ B o _ _ startBlock hother with
        ⟨hw, -⟩ | ⟨hw, -⟩
      · exact ⟨state, by rw [hw]; exact h, .inl rfl⟩
      · exact ⟨state, by rw [hw]; exact (Tables.setState_states_ne _ _ hne).trans h, .inl rfl⟩
  | updateState other data =>
    cases hother : w.tables.states other with
    | none => exact ⟨state, by rw [B.exec_updateState_none hother]; exact h, .inl rfl⟩
    | some row =>
      rw [B.exec_updateState hother]
      split
      · by_cases heq : other = stream
        · subst heq
          obtain rfl := Option.some.inj (hother.symm.trans h)
          refine ⟨data.apply row, Tables.setState_states_self .., ?_⟩
          cases data with
          | recordError _ => exact .inl rfl
          | _ => exact .inr (if_pos rfl)
        · exact ⟨state, (Tables.setState_states_ne _ _ (Ne.symm heq)).trans h, .inl rfl⟩
      · exact ⟨state, h, .inl rfl⟩
  | _ => exact ⟨state, by rw [B.exec_states rfl]; exact h, .inl rfl⟩

theorem Backend.exec_target_new {state : IndexerState H} (h : w.tables.states stream = none)
    (hafter : (B.exec call o w).2.tables.states stream = some state) :
    call.target stream = some state.lastProcessedBlock := by
  cases call with
  | upsertState other startBlock =>
    cases hother : w.tables.states other with
    | some row =>
      rw [(B.exec_upsertState hother).1, h] at hafter
      cases hafter
    | none =>
      rcases @Backend.exec_upsertState_new _ _ _ _ B o _ _ startBlock hother with
        ⟨hw, -⟩ | ⟨hw, -⟩
      · rw [hw, h] at hafter
        cases hafter
      · rw [hw] at hafter
        by_cases heq : other = stream
        · subst heq
          obtain rfl := Option.some.inj ((Tables.setState_states_self ..).symm.trans hafter)
          exact if_pos rfl
        · rw [Tables.setState_states_ne _ _ (Ne.symm heq), h] at hafter
          cases hafter
  | updateState other data =>
    cases hother : w.tables.states other with
    | none =>
      rw [B.exec_updateState_none hother, h] at hafter
      cases hafter
    | some row =>
      have hne : stream ≠ other := fun heq => by rw [← heq, h] at hother; cases hother
      rw [B.exec_updateState hother] at hafter
      split at hafter
      · rw [Tables.setState_states_ne _ _ hne, h] at hafter
        cases hafter
      · rw [h] at hafter
        cases hafter
  | _ =>
    rw [B.exec_states rfl, h] at hafter
    cases hafter

end exec

/-- Every block from the start block to `n` was passed to `process`; and `n` is past the start block
only if the checkpoint was advanced past it. -/
structure Scanned (cfg : StreamSetup) (history : List Noted) (n : Nat) : Prop where
  passed : ∀ block, cfg.startBlock < block → block ≤ n → PassedToProcess history block
  unmoved : ¬PastStart cfg history → n ≤ cfg.startBlock

def RowScanned (cfg : StreamSetup) (s : NotedState H W) : Prop :=
  ∀ state, s.1.tables.states cfg.stream = some state → Scanned cfg s.2 state.lastProcessedBlock

def Above (cfg : StreamSetup) (s : NotedState H W) : Prop :=
  ∃ state, s.1.tables.states cfg.stream = some state ∧ cfg.startBlock < state.lastProcessedBlock

def watching (cfg : StreamSetup) (B : Backend H (SetupCall H) X W) :
    Protocol (Call H (SetupCall H)) Failure (Answers X) (NotedState H W) where
  exec call o s :=
    ((B.exec call o s.1).1,
      ((B.exec call o s.1).2, s.2 ++ noted cfg.stream call o (B.exec call o s.1).1))
  allow _ _ _ := True
  rely := (· = ·)
  guar s s' := ¬PastStart cfg s.2 → PastStart cfg s'.2 → Above cfg s'
  keep := RowScanned cfg
  refl _ := rfl
  trans := .trans

structure Scanning (cfg : StreamSetup) (n : Nat) (s : NotedState H W) : Prop where
  row : RowScanned cfg s
  stands : ∃ state, s.1.tables.states cfg.stream = some state
  scanned : Scanned cfg s.2 n

structure Ingested (cfg : StreamSetup) (reached : Nat) (s : NotedState H W) : Prop where
  row : RowScanned cfg s
  stands : ∃ state, s.1.tables.states cfg.stream = some state
  passed : ∀ block, cfg.startBlock < block → block ≤ reached → PassedToProcess s.2 block

section scanned

variable {cfg : StreamSetup} {B : Backend H (SetupCall H) X W} {history more : List Noted}
  {s : NotedState H W} {call : Call H (SetupCall H) β} {o : Answers X} {n m block : Nat}

theorem PassedToProcess.append (h : PassedToProcess history block) :
    PassedToProcess (history ++ more) block :=
  have ⟨range, hmem, hrange⟩ := h
  ⟨range, List.mem_append_left _ hmem, hrange⟩

theorem PastStart.append (h : PastStart cfg history) : PastStart cfg (history ++ more) :=
  have ⟨toBlock, hmem, hlt⟩ := h
  ⟨toBlock, List.mem_append_left _ hmem, hlt⟩

theorem Scanned.start (cfg : StreamSetup) (history : List Noted) :
    Scanned cfg history cfg.startBlock :=
  ⟨fun _ hlt hle => absurd hle (by omega), fun _ => Nat.le_refl _⟩

theorem Scanned.mono (h : Scanned cfg history n) (hle : m ≤ n) : Scanned cfg history m :=
  ⟨fun block hlt hblock => h.passed block hlt (by omega), fun hquiet => by
    have := h.unmoved hquiet
    omega⟩

theorem Scanned.append (h : Scanned cfg history n) : Scanned cfg (history ++ more) n :=
  ⟨fun block hlt hle => (h.passed block hlt hle).append, fun hquiet =>
    h.unmoved fun hpast => hquiet hpast.append⟩

theorem RowScanned.exec (h : RowScanned cfg s)
    (htarget : ∀ m, call.target cfg.stream = some m →
      Scanned cfg ((watching cfg B).exec call o s).2.2 m) :
    RowScanned cfg ((watching cfg B).exec call o s).2 := by
  intro state hstate
  cases hrow : s.1.tables.states cfg.stream with
  | none => exact htarget _ (B.exec_target_new hrow hstate)
  | some row =>
    obtain ⟨state', hstate', hblock⟩ := B.exec_target call o hrow
    obtain rfl := Option.some.inj (hstate'.symm.trans hstate)
    rcases hblock with hblock | hblock
    · rw [hblock]
      exact (h row hrow).append
    · exact htarget _ hblock

theorem RowScanned.exec_still (h : RowScanned cfg s) (htarget : call.target cfg.stream = none) :
    RowScanned cfg ((watching cfg B).exec call o s).2 :=
  h.exec fun _ hm => by rw [htarget] at hm; cases hm

theorem stands_exec (h : ∃ state, s.1.tables.states cfg.stream = some state) :
    ∃ state, ((watching cfg B).exec call o s).2.1.tables.states cfg.stream = some state :=
  have ⟨_, hstate⟩ := h
  have ⟨state, hafter, _⟩ := B.exec_target call o hstate
  ⟨state, hafter⟩

theorem Scanning.mono (h : Scanning cfg n s) (hle : m ≤ n) : Scanning cfg m s :=
  ⟨h.row, h.stands, h.scanned.mono hle⟩

theorem Scanning.exec (h : Scanning cfg n s)
    (htarget : ∀ m, call.target cfg.stream = some m → m ≤ n) :
    Scanning cfg n ((watching cfg B).exec call o s).2 :=
  ⟨h.row.exec fun _ hm => h.scanned.append.mono (htarget _ hm), stands_exec h.stands,
    h.scanned.append⟩

theorem Ingested.exec_still (h : Ingested cfg n s) (htarget : call.target cfg.stream = none) :
    Ingested cfg n ((watching cfg B).exec call o s).2 :=
  ⟨h.row.exec_still htarget, stands_exec h.stands, fun block hlt hle =>
    (h.passed block hlt hle).append⟩

theorem RowScanned.load (h : RowScanned cfg s) :
    RowScanned cfg ((watching cfg B).exec (.upsertState cfg.stream cfg.startBlock) o s).2 ∧
      ∀ checkpoint, ((watching cfg B).exec (.upsertState cfg.stream cfg.startBlock) o s).1 =
          .ok checkpoint → Scanning cfg checkpoint.lastProcessedBlock
        ((watching cfg B).exec (.upsertState cfg.stream cfg.startBlock) o s).2 := by
  have hrow : RowScanned cfg
      ((watching cfg B).exec (.upsertState cfg.stream cfg.startBlock) o s).2 :=
    h.exec fun m hm => by
      obtain rfl := Option.some.inj ((if_pos rfl).symm.trans hm)
      exact .start ..
  refine ⟨hrow, fun checkpoint hanswer => ?_⟩
  obtain ⟨hpoint, state, hstate, hblock⟩ := (B.exec_load cfg o s.1).2 checkpoint hanswer
  have hsame : state.lastProcessedBlock = checkpoint.lastProcessedBlock :=
    congrArg Prod.fst (hblock.trans hpoint.symm)
  exact ⟨hrow, ⟨state, hstate⟩, hsame ▸ hrow state hstate⟩

theorem Ingested.advance (h : Ingested cfg n s) (hash : H) :
    RowScanned cfg ((watching cfg B).exec (.updateState cfg.stream (.advance n hash)) o s).2 ∧
      (watching cfg B).guar s
        ((watching cfg B).exec (.updateState cfg.stream (.advance n hash)) o s).2 := by
  obtain ⟨row, hrow⟩ := h.stands
  have hexec := @Backend.exec_updateState _ _ _ _ B o _ _ _ (.advance n hash) hrow
  dsimp only [watching, noted]
  cases happlied : o.applied with
  | false =>
    rw [happlied, if_neg Bool.false_ne_true] at hexec
    rw [hexec]
    refine ⟨fun state hstate => (h.row state hstate).append, fun hnot hpast => ?_⟩
    simp only [Bool.false_eq_true, and_false, if_false, List.append_nil] at hpast
    exact absurd hpast hnot
  | true =>
    rw [happlied, if_pos rfl] at hexec
    rw [hexec, if_pos ⟨rfl, rfl⟩]
    have hstate := Tables.setState_states_self s.1.tables cfg.stream
      (StateUpdate.apply row (.advance n hash))
    constructor
    · intro state hafter
      obtain rfl := Option.some.inj (hstate.symm.trans hafter)
      refine ⟨fun block hlt hle => (h.passed block hlt hle).append, fun hquiet => ?_⟩
      exact not_lt.mp fun hlt => hquiet ⟨n, List.mem_append_right _ List.mem_cons_self, hlt⟩
    · rintro hnot ⟨toBlock, hmem, hlt⟩
      rcases List.mem_append.mp hmem with hmem | hmem
      · exact absurd ⟨toBlock, hmem, hlt⟩ hnot
      · obtain rfl := Noted.advanced.inj (List.mem_singleton.mp hmem)
        exact ⟨_, hstate, hlt⟩

end scanned

def ScanPhase (cfg : StreamSetup) : Phase H → NotedState H W → Prop
  | .idle => RowScanned cfg
  | .loaded checkpoint => Scanning cfg checkpoint.lastProcessedBlock
  | .checked checkpoint => Scanning cfg checkpoint.lastProcessedBlock
  | .diverged _ target => Scanning cfg target
  | .deleted _ target => Scanning cfg target
  | .rewound _ target _ => Scanning cfg target
  | .ahead _ target _ _ => Scanning cfg target
  | .ceiled checkpoint _ => Scanning cfg checkpoint.lastProcessedBlock
  | .bounded checkpoint _ => Scanning cfg checkpoint.lastProcessedBlock
  | .addressed checkpoint _ _ => Scanning cfg checkpoint.lastProcessedBlock
  | .fetched checkpoint _ => Scanning cfg checkpoint.lastProcessedBlock
  | .hashed checkpoint _ _ => Scanning cfg checkpoint.lastProcessedBlock
  | .processed _ batch _ => Ingested cfg batch.reachedBlock
  | .advanced _ _ _ => RowScanned cfg

section tick

variable {cfg : StreamSetup} {B : Backend H (SetupCall H) X W} {s : NotedState H W}

theorem scanPhase_row (p : Phase H) (h : ScanPhase cfg p s) : RowScanned cfg s := by
  cases p with
  | idle => exact h
  | advanced _ _ _ => exact h
  | processed _ _ _ => exact Ingested.row h
  | _ => exact Scanning.row h

theorem scanPhase_kept (p : Phase H) : (watching cfg B).Kept (ScanPhase cfg p) :=
  ⟨fun h hst => hst ▸ h, scanPhase_row p⟩

theorem scanPhase_passes [DecidableEq H] {p q : Phase H} (hpass : Passes cfg.options p q)
    (h : ScanPhase cfg p s) : ScanPhase cfg q s := by
  cases hpass with
  | stop _ => exact scanPhase_row p h
  | cascaded => exact Scanning.row h
  | _ => exact h

variable {call : Call H (SetupCall H) β} {next : Except Failure β → Phase H} {o : Answers X}

theorem guar_quiet (hquiet : ∀ n, .advanced n ∉ noted cfg.stream call o (B.exec call o s.1).1) :
    (watching cfg B).guar s ((watching cfg B).exec call o s).2 := by
  rintro hnot ⟨n, hmem, hlt⟩
  rcases List.mem_append.mp hmem with hmem | hmem
  · exact absurd ⟨n, hmem, hlt⟩ hnot
  · exact absurd hmem (hquiet n)

theorem RowScanned.after {α : Type} {onAnswer : α → Phase H} {answer : Except Failure α}
    (h : RowScanned cfg s) (honAnswer : ∀ a, ScanPhase cfg (onAnswer a) s) :
    ScanPhase cfg (Phase.after onAnswer answer) s :=
  Phase.holds_after (K := fun p => ScanPhase cfg p s) h fun a _ => honAnswer a

theorem scanning_step {n : Nat} (h : Scanning cfg n s)
    (hquiet : ∀ n, .advanced n ∉ noted cfg.stream call o (B.exec call o s.1).1)
    (htarget : ∀ m, call.target cfg.stream = some m → m ≤ n)
    (hnext : ∀ r (s' : NotedState H W), Scanning cfg n s' → ScanPhase cfg (next r) s') :
    (watching cfg B).guar s ((watching cfg B).exec call o s).2 ∧
      ScanPhase cfg (next ((watching cfg B).exec call o s).1)
        ((watching cfg B).exec call o s).2 :=
  ⟨guar_quiet hquiet, hnext _ _ (h.exec htarget)⟩

theorem target_rollback {stream other : IndexerStream} {target m : Nat} {reason : String}
    (h : (Call.updateState other (.rollbackTo target reason) : Call H P _).target stream = some m) :
    m ≤ target := by
  simp only [Call.target, StateUpdate.toBlock] at h
  split at h
  · exact Nat.le_of_eq (Option.some.inj h).symm
  · cases h

theorem scanPhase_step [DecidableEq H] {p : Phase H} (hawait : Awaits cfg.options p call next)
    (h : ScanPhase cfg p s) :
    (watching cfg B).guar s ((watching cfg B).exec call o s).2 ∧
      ScanPhase cfg (next ((watching cfg B).exec call o s).1)
        ((watching cfg B).exec call o s).2 := by
  have hsilent : ∀ n, Noted.advanced n ∉ [] := fun _ => List.not_mem_nil
  cases hawait with
  | load =>
    obtain ⟨hrow, hloaded⟩ := RowScanned.load (B := B) (o := o) h
    exact ⟨guar_quiet hsilent, Phase.holds_afterLoad (K := fun p => ScanPhase cfg p _) hrow hloaded⟩
  | check _ _ =>
    exact scanning_step h hsilent (fun _ hm => by cases hm) fun _ s' hs =>
      Phase.holds_afterCheck (K := fun p => ScanPhase cfg p s') hs fun _ hle => hs.mono hle
  | rewind =>
    refine scanning_step h hsilent (fun _ => target_rollback) fun _ _ hs => ?_
    exact hs.row.after fun _ => hs
  | look =>
    exact scanning_step h hsilent (fun _ hm => by cases hm) fun _ s' hs =>
      Phase.holds_afterLook (K := fun p => ScanPhase cfg p s') hs.row hs hs
  | pull =>
    refine scanning_step h hsilent (fun _ => target_rollback) fun _ _ hs => ?_
    exact hs.row.after fun _ => hs
  | head =>
    refine scanning_step h hsilent (fun _ hm => by cases hm) fun _ _ hs => ?_
    exact hs.row.after fun _ => hs
  | fetch =>
    exact scanning_step h hsilent (fun _ hm => by cases hm) fun _ s' hs =>
      Phase.holds_afterFetch (K := fun p => ScanPhase cfg p s') hs.row fun _ _ _ => hs
  | hash =>
    refine scanning_step h hsilent (fun _ hm => by cases hm) fun _ _ hs => ?_
    exact hs.row.after fun _ => hs
  | reread =>
    have hafter : Ingested cfg _ ((watching cfg B).exec (.findState cfg.stream) o s).2 :=
      Ingested.exec_still h rfl
    exact ⟨guar_quiet hsilent,
      Phase.holds_afterReread (K := fun p => ScanPhase cfg p _) hafter.row hafter⟩
  | @advance _ _ reachedHash =>
    obtain ⟨hrow, hguar⟩ := Ingested.advance (B := B) (o := o) h reachedHash
    refine ⟨hguar, ?_⟩
    exact hrow.after fun _ => hrow
  | @resolve _ batch _ =>
    have hafter : RowScanned cfg
        ((watching cfg B).exec (.resolveFailedBlocks cfg.stream batch.reachedBlock) o s).2 :=
      RowScanned.exec_still h rfl
    refine ⟨guar_quiet hsilent, ?_⟩
    exact hafter.after fun _ => hafter
  | recordError => exact ⟨guar_quiet hsilent, RowScanned.exec_still h (if_pos rfl)⟩
  | recordFailedBlock => exact ⟨guar_quiet hsilent, RowScanned.exec_still h rfl⟩

theorem scanning_kept (n : Nat) : (watching cfg B).Kept (Scanning cfg n) :=
  ⟨fun h hst => hst ▸ h, Scanning.row⟩

theorem own_triple {α : Type} {n : Nat} {call : SetupCall H α} {next : Except Failure α → Phase H}
    (hquiet : ∀ o r, noted cfg.stream (.ext call : Call H (SetupCall H) α) (o : Answers X) r = [])
    (hnext : ∀ r (s' : NotedState H W), Scanning cfg n s' → ScanPhase cfg (next r) s') :
    (watching cfg B).Triple (Scanning cfg n) (Async.await (.ext call))
      fun r => ScanPhase cfg (next r) :=
  .await (scanning_kept n) (fun r => scanPhase_kept (next r)) fun _ _ h _ =>
    scanning_step h (fun _ => by rw [hquiet]; exact List.not_mem_nil) (fun _ hm => by cases hm)
      hnext

theorem process_triple (checkpoint : IndexerState H) (batch : LogBatch H) (reachedHash : H) :
    (watching cfg B).Triple (Scanning cfg checkpoint.lastProcessedBlock)
      (Async.await (.ext (.process batch.logs
        (checkpoint.lastProcessedBlock + 1, batch.reachedBlock))))
      fun r => ScanPhase cfg (Phase.after (fun _ => .processed checkpoint batch reachedHash)
        r) := by
  refine .await (scanning_kept _) (fun r => scanPhase_kept _) fun s o h _ => ⟨?_, ?_⟩
  · refine guar_quiet fun n hmem => ?_
    cases hanswer : (B.exec (.ext (.process batch.logs
        (checkpoint.lastProcessedBlock + 1, batch.reachedBlock))) o s.1).1 with
    | ok _ =>
      rw [hanswer] at hmem
      cases List.mem_singleton.mp hmem
    | error _ =>
      rw [hanswer] at hmem
      cases hmem
  · have hafter : Scanning cfg checkpoint.lastProcessedBlock ((watching cfg B).exec (.ext (.process
        batch.logs (checkpoint.lastProcessedBlock + 1, batch.reachedBlock))) o s).2 :=
      h.exec fun _ hm => by cases hm
    refine Phase.holds_after (K := fun p => ScanPhase cfg p _) hafter.row fun _ hanswer => ?_
    refine ⟨hafter.row, hafter.stands, fun block hlt hle => ?_⟩
    by_cases hbelow : block ≤ checkpoint.lastProcessedBlock
    · exact hafter.scanned.passed block hlt hbelow
    · refine ⟨(checkpoint.lastProcessedBlock + 1, batch.reachedBlock), ?_,
        Nat.succ_le_of_lt (not_le.mp hbelow), hle⟩
      refine List.mem_append_right _ ?_
      change (B.exec _ o s.1).1 = _ at hanswer
      rw [hanswer]
      exact List.mem_singleton_self _

theorem scanRule [DecidableEq H] (cfg : StreamSetup) (B : Backend H (SetupCall H) X W) :
    TickRule (watching cfg B) cfg.options (ScanPhase cfg) fun _ => True where
  kept := scanPhase_kept
  step hawait _ _ h _ := scanPhase_step hawait h
  passes := scanPhase_passes
  settled _ _ := trivial
  deleteAbove _ _ := own_triple (fun _ _ => rfl) fun _ _ hs => hs.row.after fun _ => hs
  maxBlock _ maxBlock hmax := by
    obtain rfl : maxBlock = Async.await (.ext .maxBlock) := by
      cases hcapped : cfg.capped <;> simp [StreamSetup.options, hcapped] at hmax
      exact hmax.symm
    exact own_triple (fun _ _ => rfl) fun _ _ hs => hs.row.after fun _ => hs
  addresses _ _ := own_triple (fun _ _ => rfl) fun _ _ hs => hs.row.after fun _ => hs
  process := process_triple

end tick

section runs

variable [DecidableEq H]

def StreamSetup.system (cfg : StreamSetup) (B : Backend H (SetupCall H) X W) :
    System Unit (Call H (SetupCall H)) Failure ScanTickResult (Answers X) Empty
      (NotedState H W) where
  exec _ := (watching cfg B).exec
  body _ := Scanner.tick cfg.options
  ready _ _ := true
  start _ := id
  finish _ _ := id
  env e := nomatch e
  crash := id

abbrev WatchLabel (X : Type) := System.Label Unit (Answers X) Empty

abbrev WatchConfig (H W : Type) :=
  System.Config Unit (Call H (SetupCall H)) Failure ScanTickResult (NotedState H W)

def succeeds (c : WatchConfig H W) : WatchLabel X → Bool
  | .finish _ =>
    match c.tasks () with
    | some (.done (.ok _)) => true
    | _ => false
  | .crash => false
  | _ => true

abbrev WatchStep (cfg : StreamSetup) (B : Backend H (SetupCall H) X W) (c : WatchConfig H W)
    (l : WatchLabel X) (c' : WatchConfig H W) : Prop :=
  succeeds c l = true ∧ (cfg.system B).step c l = some c'

def unwatched (w : World H W) : WatchConfig H W := .rest (w, [])

variable {cfg : StreamSetup} {B : Backend H (SetupCall H) X W} {w : World H W}
  {c c' : WatchConfig H W} {l : WatchLabel X} {ls : List (WatchLabel X)}

def watchOutline (cfg : StreamSetup) (B : Backend H (SetupCall H) X W) :
    (cfg.system B).Outline fun c l => succeeds c l = true where
  protocol _ := watching cfg B
  idle _ := RowScanned cfg
  post _ := TickRule.Outcome (ScanPhase cfg) fun _ => True
  exec _ _ _ _ _ := rfl
  allow _ _ := trivial
  peer hne := absurd (Subsingleton.elim _ _) hne
  rest h heq := heq ▸ h
  start _ _ hidle := ⟨(scanRule cfg B).tick _ hidle,
    fun _ hne => absurd (Subsingleton.elim _ _) hne⟩
  finish h := ⟨h.1, fun _ hne => absurd (Subsingleton.elim _ _) hne⟩
  env := @fun _ e => nomatch e
  crash hok := nomatch hok

theorem unwatched_inv (h : w.tables.states cfg.stream = none) :
    (watchOutline cfg B).Inv (unwatched w) :=
  (watchOutline cfg B).inv_rest fun _ state hstate => by
    rw [h] at hstate
    cases hstate

theorem rowScanned_run (h : w.tables.states cfg.stream = none)
    (hrun : Trace (WatchStep cfg B) (unwatched w) ls c) : RowScanned cfg c.world :=
  (watchOutline cfg B).keep_of_inv (i := ())
    ((watchOutline cfg B).inv_run (unwatched_inv h) hrun) fun _ hs => hs

theorem WatchStep.still_or_call (h : WatchStep cfg B c l c') :
    c'.world = c.world ∨ ∃ o, l = .call () o := by
  obtain ⟨-, hstep⟩ := h
  cases l with
  | start _ =>
    obtain ⟨-, -, rfl⟩ := System.step_start hstep
    exact .inl rfl
  | call _ o => exact .inr ⟨o, rfl⟩
  | finish _ =>
    obtain ⟨_, -, rfl⟩ := System.step_finish hstep
    exact .inl rfl
  | env e => cases e
  | crash =>
    cases hstep
    exact .inl rfl

theorem WatchStep.pastStart (h : WatchStep cfg B c l c') (hpast : PastStart cfg c.world.2) :
    PastStart cfg c'.world.2 := by
  rcases h.still_or_call with hstill | ⟨o, rfl⟩
  · rw [hstill]
    exact hpast
  · obtain ⟨_, _, _, -, rfl⟩ := System.step_call h.2
    exact hpast.append

theorem WatchStep.above (h : WatchStep cfg B c l c') (hinv : (watchOutline cfg B).Inv c)
    (hnot : ¬PastStart cfg c.world.2) (hpast : PastStart cfg c'.world.2) : Above cfg c'.world := by
  rcases h.still_or_call with hstill | ⟨o, rfl⟩
  · rw [hstill] at hpast
    exact absurd hpast hnot
  · exact ((watchOutline cfg B).call_step hinv h.1 h.2).1 hnot hpast

theorem exists_above (h : w.tables.states cfg.stream = none)
    (hrun : Trace (WatchStep cfg B) (unwatched w) ls c) (hpast : PastStart cfg c.world.2) :
    ∃ mid, Trace.Via (WatchStep cfg B) (unwatched w) ls c mid ∧ Above cfg mid.world := by
  have hnot : ¬PastStart cfg (unwatched w).world.2 := fun ⟨_, hmem, _⟩ => nomatch hmem
  obtain ⟨before, l, mid, mid', hbefore, hstep, hmid, hmid', hvia⟩ :=
    hrun.exists_turn (Q := fun c => PastStart cfg c.world.2) hnot hpast
  have hinv := (watchOutline cfg B).inv_run (unwatched_inv h) hbefore
  exact ⟨mid', hvia, hstep.above hinv hmid hmid'⟩

/-- A report that finds no gap, and finds one only if some block above the start block, up to the
checkpoint, was never passed to `process`. -/
structure Truthful (deps : HealthDeps) (s : NotedState H W) : Prop where
  silent : (deps.buildHealthSnapshot s.1.tables).hasUnscannedHistory = false
  founded : (deps.buildHealthSnapshot s.1.tables).hasUnscannedHistory = true →
    ∃ state block, s.1.tables.states .factory = some state ∧ deps.startBlock < block ∧
      block ≤ state.lastProcessedBlock ∧ ¬PassedToProcess s.2 block

omit [DecidableEq H] in
theorem truthful_iff {deps : HealthDeps} {s : NotedState H W} (hstream : cfg.stream = .factory)
    (hdeps : deps.startBlock = cfg.startBlock) : Truthful deps s ↔ ¬Above cfg s := by
  have hreport :
      (deps.buildHealthSnapshot s.1.tables).hasUnscannedHistory = true ↔ Above cfg s := by
    rw [HealthDeps.hasUnscannedHistory_iff, hdeps, ← hstream]
    rfl
  constructor
  · intro h habove
    exact Bool.false_ne_true (h.silent.symm.trans (hreport.mpr habove))
  · intro h
    exact ⟨Bool.eq_false_iff.mpr fun htrue => h (hreport.mp htrue),
      fun htrue => absurd (hreport.mp htrue) h⟩

/-- Every block below the checkpoint was scanned at every moment, so a report of a gap is false;
and there is one exactly when some tick has advanced. -/
theorem unscanned_reported_iff (cfg : StreamSetup) (B : Backend H (SetupCall H) X W) (w : World H W)
    (hstream : cfg.stream = .factory) (hnew : w.tables.states .factory = none)
    (deps : NotedState H W → HealthDeps) (hdeps : ∀ s, (deps s).startBlock = cfg.startBlock)
    {ls : List (WatchLabel X)} {c : WatchConfig H W}
    (hrun : Trace (WatchStep cfg B) (unwatched w) ls c) :
    (∀ mid, Trace.Via (WatchStep cfg B) (unwatched w) ls c mid →
      ∀ state, mid.world.1.tables.states .factory = some state →
        ∀ block, cfg.startBlock < block → block ≤ state.lastProcessedBlock →
          PassedToProcess mid.world.2 block) ∧
      ((∀ mid, Trace.Via (WatchStep cfg B) (unwatched w) ls c mid →
          Truthful (deps mid.world) mid.world) ↔ ¬PastStart cfg c.world.2) := by
  have hrow : w.tables.states cfg.stream = none := hstream ▸ hnew
  refine ⟨?_, fun htruthful hpast => ?_, fun hquiet => ?_⟩
  · rintro mid ⟨before, after, rfl, hbefore, -⟩ state hstate
    exact (rowScanned_run hrow hbefore state (hstream ▸ hstate)).passed
  · obtain ⟨mid, hvia, habove⟩ := exists_above hrow hrun hpast
    exact (truthful_iff hstream (hdeps _)).mp (htruthful mid hvia) habove
  · rintro mid ⟨before, after, rfl, hbefore, hafter⟩
    refine (truthful_iff hstream (hdeps _)).mpr fun ⟨state, hstate, hlt⟩ => ?_
    have hmid : ¬PastStart cfg mid.world.2 := fun hpast => hquiet (Trace.invariant
      (I := fun c : WatchConfig H W => PastStart cfg c.world.2)
      (fun hpast hstep => WatchStep.pastStart hstep hpast) hafter hpast)
    have hle := (rowScanned_run hrow hbefore state hstate).unmoved hmid
    omega

end runs

def idleReporter : HealthDeps where
  chainId := 1
  chainHead := some 20
  startBlock := 0
  columns _ := { lastSuccessAt := none, logWindowSize := 1000 }
  lagSeconds lagBlocks := lagBlocks
  pool := []
  now := 0
  checkedAt := ""

def throughTick (calls head : Nat) : List (WatchLabel Unit) :=
  .start () :: List.replicate calls (.call () { throughCall with head }) ++ [.finish ()]

/-- Two ticks that find no confirmed block. -/
theorem unscanned_reported_iff_unconfirmed : ∃ c : WatchConfig Nat Unit,
    Trace (WatchStep idleStream idleBackend) (unwatched emptyWorld)
        (throughTick 2 10 ++ throughTick 2 10) c ∧
      ∀ mid, Trace.Via (WatchStep idleStream idleBackend) (unwatched emptyWorld)
        (throughTick 2 10 ++ throughTick 2 10) c mid → Truthful idleReporter mid.world := by
  obtain ⟨c, hrun, hnone⟩ : ∃ c, Trace (WatchStep idleStream idleBackend) (unwatched emptyWorld)
      (throughTick 2 10 ++ throughTick 2 10) c ∧ decide (c.world.2 = []) = true :=
    System.Run.exists_of_any (by decide)
  have hquiet : ¬PastStart idleStream c.world.2 := by
    rw [of_decide_eq_true hnone]
    exact fun ⟨_, hmem, _⟩ => nomatch hmem
  exact ⟨c, hrun, (unscanned_reported_iff idleStream idleBackend emptyWorld rfl rfl
    (fun _ => idleReporter) (fun _ => rfl) hrun).2.mpr hquiet⟩

/-- The first tick that advances passes blocks 1 to 5, and the endpoint answers 503. -/
theorem scanned_reported_unscanned : ∃ c : WatchConfig Nat Unit,
    Trace (WatchStep idleStream idleBackend) (unwatched emptyWorld) (throughTick 9 20) c ∧
      (c.world.1.tables.states .factory).map (·.lastProcessedBlock) = some 5 ∧
      (∀ block, 0 < block → block ≤ 5 → PassedToProcess c.world.2 block) ∧
      (idleReporter.buildHealthSnapshot c.world.1.tables).hasUnscannedHistory = true ∧
      HealthDeps.statusCode (idleReporter.buildHealthSnapshot c.world.1.tables) = 503 ∧
      ¬Truthful idleReporter c.world := by
  obtain ⟨c, hrun, htest⟩ : ∃ c, Trace (WatchStep idleStream idleBackend) (unwatched emptyWorld)
      (throughTick 9 20) c ∧ decide (c.world.2 = [.processed (1, 5), .advanced 5] ∧
        (c.world.1.tables.states .factory).map (·.lastProcessedBlock) = some 5) = true :=
    System.Run.exists_of_any (by decide)
  obtain ⟨hhistory, hblock⟩ := of_decide_eq_true htest
  obtain ⟨state, hstate, hreached⟩ := Option.map_eq_some_iff.mp hblock
  have hreport : (idleReporter.buildHealthSnapshot c.world.1.tables).hasUnscannedHistory = true :=
    HealthDeps.hasUnscannedHistory_iff.mpr ⟨state, hstate, hreached ▸ Nat.zero_lt_succ 4⟩
  refine ⟨c, hrun, hblock, fun block hlt hle => ?_, hreport,
    HealthDeps.statusCode_of_unscanned hreport,
    fun h => Bool.false_ne_true (h.silent.symm.trans hreport)⟩
  rw [hhistory]
  exact ⟨(1, 5), List.mem_cons_self, hlt, hle⟩

end Stunks.Indexer
