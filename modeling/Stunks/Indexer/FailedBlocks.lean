import Stunks.Indexer.HealthRuns

namespace Stunks.Indexer

open Database

variable {H X W α β : Type} {P : Type → Type}

inductive Mark
  | failed (block : Nat)
  | processed (range : Nat × Nat)
  | advanced (toBlock : Nat)
  | cleared (throughBlock : Nat)
  deriving DecidableEq

/-- A write may have been applied though it was rejected. -/
def marks (stream : IndexerStream) : Call H (SetupCall H) β → Answers X → Except Failure β →
    List Mark
  | .upsertFailedBlock other block _, o, _ =>
    if other = stream ∧ o.applied = true then [.failed block] else []
  | .resolveFailedBlocks other throughBlock, o, _ =>
    if other = stream ∧ o.applied = true then [.cleared throughBlock] else []
  | .updateState other (.advance toBlock _), o, _ =>
    if other = stream ∧ o.applied = true then [.advanced toBlock] else []
  | .ext (.process _ range), _, .ok _ => [.processed range]
  | _, _, _ => []

abbrev MarkedState (H W : Type) := World H W × List Mark

/-- The block was processed after it last failed. -/
def Retried (history : List Mark) (block : Nat) : Prop :=
  ∃ before range after, history = before ++ .processed range :: after ∧
    range.1 ≤ block ∧ block ≤ range.2 ∧ .failed block ∉ after

/-- The checkpoint was advanced after the failed blocks were last cleared. -/
def Unclean (history : List Mark) : Prop :=
  ∃ before toBlock after, history = before ++ .advanced toBlock :: after ∧
    ∀ throughBlock, .cleared throughBlock ∉ after

structure Sound (cfg : StreamSetup) (n : Nat) (s : MarkedState H W) : Prop where
  retried : ∀ r ∈ s.1.tables.failedBlocks, r.stream = cfg.stream → r.blockNumber ≤ n →
    Retried s.2 r.blockNumber
  unclean : ∀ r ∈ s.1.tables.failedBlocks, r.stream = cfg.stream → r.blockNumber ≤ n →
    r.resolved = false → Unclean s.2

structure Account (cfg : StreamSetup) (s : MarkedState H W) : Prop where
  keys : (s.1.tables.failedBlocks.map FailedBlock.key).Nodup
  fresh : s.1.tables.states cfg.stream = none →
    ∀ r ∈ s.1.tables.failedBlocks, r.stream ≠ cfg.stream
  row : ∀ state, s.1.tables.states cfg.stream = some state →
    Sound cfg state.lastProcessedBlock s
  resolved : ∀ r ∈ s.1.tables.failedBlocks, r.stream = cfg.stream → r.resolved = true →
    Retried s.2 r.blockNumber
  attempts : ∀ r ∈ s.1.tables.failedBlocks, r.stream = cfg.stream →
    r.attempts = s.2.count (.failed r.blockNumber)
  recorded : ∀ block, .failed block ∈ s.2 →
    ∃ r ∈ s.1.tables.failedBlocks, r.key = (cfg.stream, block)

/-- What the others may do: write the failed blocks of other streams, and pull the checkpoint
back. -/
structure Others (cfg : StreamSetup) (s t : MarkedState H W) : Prop where
  history : t.2 = s.2
  mine : ∀ r, r.stream = cfg.stream →
    (r ∈ t.1.tables.failedBlocks ↔ r ∈ s.1.tables.failedBlocks)
  keys : (s.1.tables.failedBlocks.map FailedBlock.key).Nodup →
    (t.1.tables.failedBlocks.map FailedBlock.key).Nodup
  stands : ∀ state, s.1.tables.states cfg.stream = some state →
    ∃ state', t.1.tables.states cfg.stream = some state'
  back : ∀ state', t.1.tables.states cfg.stream = some state' →
    ∃ state, s.1.tables.states cfg.stream = some state ∧
      state'.lastProcessedBlock ≤ state.lastProcessedBlock

structure Working (cfg : StreamSetup) (n : Nat) (s : MarkedState H W) : Prop where
  account : Account cfg s
  below : ∃ state, s.1.tables.states cfg.stream = some state ∧ state.lastProcessedBlock ≤ n
  sound : Sound cfg n s

structure Worked (cfg : StreamSetup) (n reached : Nat) (s : MarkedState H W) : Prop where
  working : Working cfg n s
  processed : ∀ block, n < block → block ≤ reached → Retried s.2 block

section history

variable {history more : List Mark} {block : Nat}

theorem Retried.append (h : Retried history block) (hmore : .failed block ∉ more) :
    Retried (history ++ more) block := by
  obtain ⟨before, range, after, rfl, hlo, hhi, hafter⟩ := h
  refine ⟨before, range, after ++ more, by simp, hlo, hhi, ?_⟩
  simp [hafter, hmore]

theorem Unclean.append (h : Unclean history) (hmore : ∀ n, .cleared n ∉ more) :
    Unclean (history ++ more) := by
  obtain ⟨before, toBlock, after, rfl, hafter⟩ := h
  refine ⟨before, toBlock, after ++ more, by simp, fun n => ?_⟩
  simp [hafter n, hmore n]

theorem retried_processed {range : Nat × Nat} (hlo : range.1 ≤ block) (hhi : block ≤ range.2) :
    Retried (history ++ [.processed range]) block :=
  ⟨history, range, [], rfl, hlo, hhi, List.not_mem_nil⟩

theorem unclean_advanced {toBlock : Nat} : Unclean (history ++ [.advanced toBlock]) :=
  ⟨history, toBlock, [], rfl, fun _ => List.not_mem_nil⟩

end history

section others

variable {cfg : StreamSetup} {s t u : MarkedState H W} {n m reached : Nat}

theorem Others.refl (s : MarkedState H W) : Others cfg s s :=
  ⟨rfl, fun _ _ => Iff.rfl, id, fun state h => ⟨state, h⟩, fun state h => ⟨state, h, le_rfl⟩⟩

theorem Others.trans (h : Others cfg s t) (h' : Others cfg t u) : Others cfg s u := by
  refine ⟨h'.history.trans h.history, fun r hr => (h'.mine r hr).trans (h.mine r hr),
    fun hk => h'.keys (h.keys hk), fun state hs => ?_, fun state hs => ?_⟩
  · obtain ⟨state', ht⟩ := h.stands state hs
    exact h'.stands state' ht
  · obtain ⟨state', ht, hle⟩ := h'.back state hs
    obtain ⟨state'', hs', hle'⟩ := h.back state' ht
    exact ⟨state'', hs', hle.trans hle'⟩

theorem Sound.others (h : Sound cfg n s) (hst : Others cfg s t) : Sound cfg n t := by
  constructor
  · intro r hr hstream hle
    rw [hst.history]
    exact h.retried r ((hst.mine r hstream).mp hr) hstream hle
  · intro r hr hstream hle hunresolved
    rw [hst.history]
    exact h.unclean r ((hst.mine r hstream).mp hr) hstream hle hunresolved

theorem Sound.mono (h : Sound cfg n s) (hle : m ≤ n) : Sound cfg m s :=
  ⟨fun r hr hstream hr' => h.retried r hr hstream (hr'.trans hle),
    fun r hr hstream hr' => h.unclean r hr hstream (hr'.trans hle)⟩

theorem Account.others (h : Account cfg s) (hst : Others cfg s t) : Account cfg t := by
  refine ⟨hst.keys h.keys, fun hnone r hr hstream => ?_, fun state' ht => ?_, ?_, ?_, ?_⟩
  · cases hs : s.1.tables.states cfg.stream with
    | none => exact h.fresh hs r ((hst.mine r hstream).mp hr) hstream
    | some state =>
      obtain ⟨state', ht⟩ := hst.stands state hs
      rw [hnone] at ht
      cases ht
  · obtain ⟨state, hs, hle⟩ := hst.back state' ht
    exact ((h.row state hs).others hst).mono hle
  · intro r hr hstream hres
    rw [hst.history]
    exact h.resolved r ((hst.mine r hstream).mp hr) hstream hres
  · intro r hr hstream
    rw [hst.history]
    exact h.attempts r ((hst.mine r hstream).mp hr) hstream
  · intro block hblock
    rw [hst.history] at hblock
    obtain ⟨r, hr, hkey⟩ := h.recorded block hblock
    exact ⟨r, (hst.mine r (congrArg Prod.fst hkey)).mpr hr, hkey⟩

theorem Working.others (h : Working cfg n s) (hst : Others cfg s t) : Working cfg n t := by
  obtain ⟨state, hs, hle⟩ := h.below
  obtain ⟨state', ht⟩ := hst.stands state hs
  obtain ⟨state'', hs', hle'⟩ := hst.back state' ht
  obtain rfl := Option.some.inj (hs.symm.trans hs')
  exact ⟨h.account.others hst, ⟨state', ht, hle'.trans hle⟩, h.sound.others hst⟩

theorem Worked.others (h : Worked cfg n reached s) (hst : Others cfg s t) :
    Worked cfg n reached t :=
  ⟨h.working.others hst, fun block hlo hhi => hst.history ▸ h.processed block hlo hhi⟩

end others

def accounting (cfg : StreamSetup) (B : Backend H (SetupCall H) X W) :
    Protocol (Call H (SetupCall H)) Failure (Answers X) (MarkedState H W) where
  exec call o s :=
    ((B.exec call o s.1).1,
      ((B.exec call o s.1).2, s.2 ++ marks cfg.stream call o (B.exec call o s.1).1))
  allow _ _ _ := True
  rely := Others cfg
  guar _ _ := True
  keep := Account cfg
  refl := Others.refl
  trans := Others.trans

def Call.isBlame : Call H P β → Bool
  | .upsertFailedBlock _ _ _ => true
  | .resolveFailedBlocks _ _ => true
  | _ => false

theorem Backend.exec_failedBlocks (B : Backend H P X W) {call : Call H P β} {o : Answers X}
    {w : World H W} (h : call.isBlame = false) :
    (B.exec call o w).2.tables.failedBlocks = w.tables.failedBlocks := by
  have hperform : (B.perform o w call).2.tables.failedBlocks = w.tables.failedBlocks := by
    cases call with
    | upsertFailedBlock _ _ _ => cases h
    | resolveFailedBlocks _ _ => cases h
    | upsertState stream startBlock =>
      simp only [perform, Tables.upsertState]
      split <;> rfl
    | updateState stream data =>
      simp only [perform, Tables.updateState]
      split <;> rfl
    | blockHash _ =>
      simp only [perform]
      split <;> rfl
    | _ => rfl
  cases hfault : o.fault with
  | none => rw [B.exec_ok hfault, hperform]
  | some fault =>
    rw [B.exec_fault hfault]
    split
    · exact hperform
    · rfl

section tables

variable {t : Tables H} {stream : IndexerStream} {block throughBlock : Nat} {error : String}
  {r : FailedBlock}

theorem of_mem_resolve (hr : r ∈ (t.resolveFailedBlocks stream throughBlock).2.failedBlocks) :
    ∃ r₀ ∈ t.failedBlocks, r.key = r₀.key ∧ r.attempts = r₀.attempts ∧
      ((r.stream = stream ∧ r.blockNumber ≤ throughBlock ∧ r.resolved = true) ∨ r = r₀ ∧
        (r.stream = stream → r.blockNumber ≤ throughBlock → r.resolved = true)) := by
  obtain ⟨r₀, hr₀, rfl⟩ := List.mem_map.mp hr
  refine ⟨r₀, hr₀, ?_⟩
  split
  · rename_i hcase
    exact ⟨rfl, rfl, .inl ⟨hcase.1, hcase.2.1, rfl⟩⟩
  · rename_i hcase
    refine ⟨rfl, rfl, .inr ⟨rfl, fun hstream hle => ?_⟩⟩
    by_contra hunresolved
    exact hcase ⟨hstream, hle, Bool.eq_false_iff.mpr hunresolved⟩

theorem exists_mem_resolve (hr : r ∈ t.failedBlocks) :
    ∃ r' ∈ (t.resolveFailedBlocks stream throughBlock).2.failedBlocks, r'.key = r.key := by
  refine ⟨_, List.mem_map_of_mem hr, ?_⟩
  dsimp only
  split <;> rfl

theorem keys_resolve : (t.resolveFailedBlocks stream throughBlock).2.failedBlocks.map
    FailedBlock.key = t.failedBlocks.map FailedBlock.key := by
  simp only [Tables.resolveFailedBlocks, List.map_map]
  refine List.map_congr_left fun r _ => ?_
  dsimp only [Function.comp_apply]
  split <;> rfl

theorem of_mem_record (hkeys : (t.failedBlocks.map FailedBlock.key).Nodup)
    (hr : r ∈ (t.upsertFailedBlock stream block error).failedBlocks) :
    (r.key = (stream, block) ∧ r.resolved = false ∧
      ((∃ r₀ ∈ t.failedBlocks, r₀.key = (stream, block) ∧ r.attempts = r₀.attempts + 1) ∨
        (∀ r₀ ∈ t.failedBlocks, r₀.key ≠ (stream, block)) ∧ r.attempts = 1)) ∨
      (r.key ≠ (stream, block) ∧ r ∈ t.failedBlocks) := by
  by_cases hkey : r.key = (stream, block)
  · refine .inl ⟨hkey, ?_⟩
    have hself : r = _ := List.inj_on_of_nodup_map (Table.nodup_upsert hkeys) hr
      Table.mem_upsert_self (hkey.trans rfl)
    rw [hself]
    refine ⟨rfl, ?_⟩
    dsimp only
    cases hfind : t.failedBlocks.find? fun block' => block'.key = (stream, block) with
    | none =>
      refine .inr ⟨fun r₀ hr₀ hkey₀ => ?_, rfl⟩
      exact List.find?_eq_none.mp hfind r₀ hr₀ (decide_eq_true hkey₀)
    | some r₀ =>
      exact .inl ⟨r₀, List.mem_of_find?_eq_some hfind, by simpa using List.find?_some hfind, rfl⟩
  · refine .inr ⟨hkey, (Table.of_mem_upsert hr).resolve_left ?_⟩
    rintro rfl
    exact hkey rfl

end tables

section steps

variable {cfg : StreamSetup} {B : Backend H (SetupCall H) X W} {s : MarkedState H W}
  {call : Call H (SetupCall H) β} {o : Answers X} {n reached : Nat}

def Call.isQuiet (stream : IndexerStream) (call : Call H (SetupCall H) β) : Prop :=
  call.isBlame = false ∧ ∀ {X : Type} (o : Answers X) r, marks stream call o r = []

theorem exec_quiet (h : call.isQuiet cfg.stream) :
    ((accounting cfg B).exec call o s).2 = ((B.exec call o s.1).2, s.2) := by
  simp only [accounting, h.2, List.append_nil]

theorem others_world (hblame : call.isBlame = false) (htarget : call.target cfg.stream = none) :
    Others cfg s ((B.exec call o s.1).2, s.2) := by
  have hsame := B.exec_failedBlocks (o := o) (w := s.1) hblame
  refine ⟨rfl, fun r _ => by rw [hsame], fun hk => by rw [hsame]; exact hk, ?_, ?_⟩
  · intro state hs
    obtain ⟨state', hs', -⟩ := B.exec_target call o hs
    exact ⟨state', hs'⟩
  · intro state' hs'
    cases hs : s.1.tables.states cfg.stream with
    | none =>
      have := B.exec_target_new hs hs'
      rw [htarget] at this
      cases this
    | some state =>
      obtain ⟨state'', hs'', hblock⟩ := B.exec_target call o hs
      obtain rfl := Option.some.inj (hs''.symm.trans hs')
      rw [htarget] at hblock
      refine ⟨state, rfl, ?_⟩
      rcases hblock with hblock | hblock
      · exact hblock.le
      · cases hblock

theorem others_exec (h : call.isQuiet cfg.stream) (htarget : call.target cfg.stream = none) :
    Others cfg s ((accounting cfg B).exec call o s).2 :=
  exec_quiet (B := B) h ▸ others_world h.1 htarget

theorem Working.move (h : Working cfg n s) (hquiet : call.isQuiet cfg.stream)
    (htarget : ∀ m, call.target cfg.stream = some m → m ≤ n) :
    Working cfg n ((accounting cfg B).exec call o s).2 := by
  rw [exec_quiet hquiet]
  have hblame := B.exec_failedBlocks (o := o) (w := s.1) hquiet.1
  have hsound : Sound cfg n ((B.exec call o s.1).2, s.2) :=
    ⟨fun r hr => h.sound.retried r (hblame ▸ hr), fun r hr => h.sound.unclean r (hblame ▸ hr)⟩
  obtain ⟨state, hs, hle⟩ := h.below
  obtain ⟨state', hs', hblock⟩ := B.exec_target call o hs
  have hle' : state'.lastProcessedBlock ≤ n := by
    rcases hblock with hblock | hblock
    · exact hblock.trans_le hle
    · exact htarget _ hblock
  refine ⟨⟨by rw [hblame]; exact h.account.keys, ?_, ?_, ?_, ?_, ?_⟩, ⟨state', hs', hle'⟩, hsound⟩
  · intro hnone
    rw [hs'] at hnone
    cases hnone
  · intro state'' hs''
    obtain rfl := Option.some.inj (hs'.symm.trans hs'')
    exact hsound.mono hle'
  · exact fun r hr => h.account.resolved r (hblame ▸ hr)
  · exact fun r hr => h.account.attempts r (hblame ▸ hr)
  · intro block hblock
    obtain ⟨r, hr, hkey⟩ := h.account.recorded block hblock
    exact ⟨r, hblame ▸ hr, hkey⟩

theorem Account.load (h : Account cfg s) :
    Account cfg ((accounting cfg B).exec (.upsertState cfg.stream cfg.startBlock) o s).2 ∧
      ∀ checkpoint, ((accounting cfg B).exec (.upsertState cfg.stream cfg.startBlock) o s).1 =
          .ok checkpoint → Working cfg checkpoint.lastProcessedBlock
        ((accounting cfg B).exec (.upsertState cfg.stream cfg.startBlock) o s).2 := by
  have hquiet : (Call.upsertState cfg.stream cfg.startBlock : Call H (SetupCall H) _).isQuiet
      cfg.stream := ⟨rfl, fun _ _ => rfl⟩
  rw [exec_quiet hquiet]
  change _ ∧ ∀ checkpoint, (B.exec (.upsertState cfg.stream cfg.startBlock) o s.1).1 = _ → _
  cases hrow : s.1.tables.states cfg.stream with
  | some state =>
    obtain ⟨hw, hanswer⟩ := @Backend.exec_upsertState H _ X W B o s.1 cfg.stream state
      cfg.startBlock hrow
    rw [hw]
    refine ⟨h, fun checkpoint hcheckpoint => ?_⟩
    obtain rfl := hanswer checkpoint hcheckpoint
    exact ⟨h, ⟨_, hrow, le_rfl⟩, h.row _ hrow⟩
  | none =>
    have hload := @Backend.exec_upsertState_new H _ X W B o s.1 cfg.stream cfg.startBlock hrow
    rcases hload with ⟨hw, hanswer⟩ | ⟨hw, hanswer⟩
    · rw [hw]
      exact ⟨h, fun checkpoint hcheckpoint => absurd hcheckpoint (hanswer checkpoint)⟩
    · rw [hw]
      have hnone := h.fresh hrow
      have hsound : ∀ n, Sound cfg n
          ({ s.1 with tables := s.1.tables.setState cfg.stream (freshState H cfg.startBlock) },
            s.2) := fun n =>
        ⟨fun r hr hstream => absurd hstream (hnone r hr),
          fun r hr hstream => absurd hstream (hnone r hr)⟩
      have haccount : Account cfg
          ({ s.1 with tables := s.1.tables.setState cfg.stream (freshState H cfg.startBlock) },
            s.2) :=
        ⟨h.keys, fun _ => hnone, fun state _ => hsound _, h.resolved, h.attempts, h.recorded⟩
      refine ⟨haccount, fun checkpoint hcheckpoint => ?_⟩
      obtain rfl := hanswer checkpoint hcheckpoint
      exact ⟨haccount, ⟨_, Tables.setState_states_self .., le_rfl⟩, hsound _⟩

def Harmless (more : List Mark) : Prop := ∀ n, .failed n ∉ more ∧ .cleared n ∉ more

theorem Sound.append {w : World H W} {history more : List Mark} (h : Sound cfg n (w, history))
    (hmore : Harmless more) : Sound cfg n (w, history ++ more) :=
  ⟨fun r hr hstream hle => (h.retried r hr hstream hle).append (hmore _).1,
    fun r hr hstream hle hunresolved => (h.unclean r hr hstream hle hunresolved).append
      fun n => (hmore n).2⟩

theorem Account.append {w : World H W} {history more : List Mark} (h : Account cfg (w, history))
    (hmore : Harmless more) : Account cfg (w, history ++ more) := by
  refine ⟨h.keys, h.fresh, fun state hs => (h.row state hs).append hmore,
    fun r hr hstream hres => (h.resolved r hr hstream hres).append (hmore _).1, ?_, ?_⟩
  · intro r hr hstream
    rw [List.count_append, List.count_eq_zero_of_not_mem (hmore _).1]
    exact h.attempts r hr hstream
  · intro block hblock
    exact h.recorded block ((List.mem_append.mp hblock).resolve_right (hmore block).1)

theorem Working.append {w : World H W} {history more : List Mark}
    (h : Working cfg n (w, history)) (hmore : Harmless more) :
    Working cfg n (w, history ++ more) :=
  ⟨h.account.append hmore, h.below, h.sound.append hmore⟩

theorem Working.process (h : Working cfg n s) {logs : List (RawLog H)} :
    let after := (accounting cfg B).exec (.ext (.process logs (n + 1, reached))) o s
    Working cfg n after.2 ∧ ∀ a, after.1 = .ok a → Worked cfg n reached after.2 := by
  intro after
  have hworld : Working cfg n ((B.exec (.ext (.process logs (n + 1, reached))) o s.1).2, s.2) :=
    h.others (others_world rfl rfl)
  cases hanswer : (B.exec (.ext (.process logs (n + 1, reached))) o s.1).1 with
  | error error =>
    have hmarks : after.2.2 = s.2 := by
      show s.2 ++ marks cfg.stream (.ext (.process logs (n + 1, reached))) o (B.exec _ o s.1).1 = _
      rw [hanswer]
      exact List.append_nil _
    have hafter : Working cfg n after.2 := by
      rw [← Prod.mk.eta (p := after.2), hmarks]
      exact hworld
    exact ⟨hafter, fun a ha => by cases hanswer.symm.trans ha⟩
  | ok a =>
    have hmarks : after.2.2 = s.2 ++ [.processed (n + 1, reached)] := by
      show s.2 ++ marks cfg.stream (.ext (.process logs (n + 1, reached))) o (B.exec _ o s.1).1 = _
      rw [hanswer]
      rfl
    have hafter : Working cfg n after.2 := by
      rw [← Prod.mk.eta (p := after.2), hmarks]
      exact hworld.append fun _ => by simp
    exact ⟨hafter, fun _ _ => ⟨hafter, fun block hlo hhi => hmarks ▸ retried_processed hlo hhi⟩⟩

theorem exec_unapplied {data : StateUpdate H} {stream : IndexerStream} (h : o.applied = false) :
    (∀ a, (B.exec (.updateState stream data) o s.1).1 ≠ .ok a) ∧
      (B.exec (.updateState stream data) o s.1).2 = s.1 := by
  cases hfault : o.fault with
  | none =>
    rw [Answers.applied, hfault] at h
    cases h
  | some fault =>
    have happlied : fault.applied = false := by
      rw [Answers.applied, hfault] at h
      exact h
    rw [B.exec_fault hfault, happlied]
    exact ⟨fun _ hok => (by cases hok), rfl⟩

theorem Worked.advance (h : Worked cfg n reached s) (hash : H) :
    let after := (accounting cfg B).exec (.updateState cfg.stream (.advance reached hash)) o s
    Account cfg after.2 ∧ ∀ a, after.1 = .ok a → Working cfg reached after.2 := by
  intro after
  obtain ⟨row, hrow, hle⟩ := h.working.below
  have hexec := @Backend.exec_updateState _ _ _ _ B o _ _ _ (.advance reached hash) hrow
  have hmarks : after.2.2 = s.2 ++
      if cfg.stream = cfg.stream ∧ o.applied = true then [.advanced reached] else [] := rfl
  cases happlied : o.applied with
  | false =>
    obtain ⟨hfails, hworld⟩ :=
      @exec_unapplied H X W B s o (.advance reached hash) cfg.stream happlied
    rw [happlied, if_neg (by simp), List.append_nil] at hmarks
    have hafter : after.2 = s := Prod.ext hworld hmarks
    rw [hafter]
    exact ⟨h.working.account, fun a ha => absurd ha (hfails a)⟩
  | true =>
    rw [happlied, if_pos rfl] at hexec
    rw [happlied, if_pos ⟨rfl, rfl⟩] at hmarks
    have hsame : after.2.1.tables.failedBlocks = s.1.tables.failedBlocks :=
      B.exec_failedBlocks rfl
    have hrow' : after.2.1.tables.states cfg.stream =
        some (StateUpdate.apply row (.advance reached hash)) := by
      show (B.exec (.updateState cfg.stream (.advance reached hash)) o s.1).2.tables.states _ = _
      rw [hexec]
      exact Tables.setState_states_self ..
    have hsound : Sound cfg reached after.2 := by
      constructor
      · intro r hr hstream hreached
        rw [hmarks]
        refine Retried.append ?_ (by simp)
        rw [hsame] at hr
        by_cases hbelow : r.blockNumber ≤ n
        · exact h.working.sound.retried r hr hstream hbelow
        · exact h.processed _ (not_le.mp hbelow) hreached
      · intro r hr hstream hreached hunresolved
        rw [hmarks]
        exact unclean_advanced
    have haccount := h.working.account
    have hworking : Working cfg reached after.2 := by
      refine ⟨⟨by rw [hsame]; exact haccount.keys, ?_, ?_, ?_, ?_, ?_⟩, ⟨_, hrow', le_rfl⟩, hsound⟩
      · intro hnone
        rw [hrow'] at hnone
        cases hnone
      · intro state hs
        obtain rfl := Option.some.inj (hrow'.symm.trans hs)
        exact hsound
      · intro r hr hstream hres
        rw [hmarks]
        exact (haccount.resolved r (hsame ▸ hr) hstream hres).append (by simp)
      · intro r hr hstream
        rw [hmarks, List.count_append, haccount.attempts r (hsame ▸ hr) hstream]
        simp
      · intro block hblock
        rw [hmarks] at hblock
        obtain ⟨r, hr, hkey⟩ := haccount.recorded block (by simpa using hblock)
        exact ⟨r, hsame ▸ hr, hkey⟩
    exact ⟨hworking.account, fun _ _ => hworking⟩

theorem Backend.exec_applied {P : Type → Type} (B : Backend H P X W) (call : Call H P β)
    (w : World H W) : (B.exec call o w).2 = if o.applied then (B.perform o w call).2 else w := by
  cases hfault : o.fault with
  | none => simp [B.exec_ok hfault, Answers.applied, hfault]
  | some fault => simp [B.exec_fault hfault, Answers.applied, hfault]

theorem Working.resolve (h : Working cfg reached s) :
    Account cfg ((accounting cfg B).exec (.resolveFailedBlocks cfg.stream reached) o s).2 := by
  cases happlied : o.applied with
  | false =>
    have hafter : ((accounting cfg B).exec (.resolveFailedBlocks cfg.stream reached) o s).2 = s := by
      refine Prod.ext ?_ ?_
      · show (B.exec (.resolveFailedBlocks cfg.stream reached) o s.1).2 = s.1
        rw [B.exec_applied, happlied, if_neg Bool.false_ne_true]
      · show s.2 ++ (if cfg.stream = cfg.stream ∧ o.applied = true then _ else []) = s.2
        rw [happlied, if_neg (by simp), List.append_nil]
    rw [hafter]
    exact h.account
  | true =>
    have hafter : ((accounting cfg B).exec (.resolveFailedBlocks cfg.stream reached) o s).2 =
        ({ s.1 with tables := (s.1.tables.resolveFailedBlocks cfg.stream reached).2 },
          s.2 ++ [.cleared reached]) := by
      refine Prod.ext ?_ ?_
      · show (B.exec (.resolveFailedBlocks cfg.stream reached) o s.1).2 = _
        rw [B.exec_applied, happlied, if_pos rfl]
        rfl
      · show s.2 ++ (if cfg.stream = cfg.stream ∧ o.applied = true then _ else []) = _
        rw [happlied, if_pos ⟨rfl, rfl⟩]
    rw [hafter]
    obtain ⟨row, hrow, hle⟩ := h.below
    have hretried : ∀ r ∈ (s.1.tables.resolveFailedBlocks cfg.stream reached).2.failedBlocks,
        r.stream = cfg.stream → r.blockNumber ≤ reached ∨ r.resolved = true →
          Retried (s.2 ++ [.cleared reached]) r.blockNumber := by
      intro r hr hstream hcase
      obtain ⟨r₀, hr₀, hkey, -, hsame⟩ := of_mem_resolve hr
      obtain ⟨hstream₀, hblock₀⟩ := Prod.mk.inj hkey
      rw [hblock₀] at hcase ⊢
      refine Retried.append ?_ (by simp)
      rcases hcase with hreached | hres
      · exact h.sound.retried r₀ hr₀ (hstream₀ ▸ hstream) hreached
      · rcases hsame with ⟨-, hreached, -⟩ | ⟨rfl, -⟩
        · exact h.sound.retried r₀ hr₀ (hstream₀ ▸ hstream) (hblock₀ ▸ hreached)
        · exact h.account.resolved r hr₀ hstream hres
    refine ⟨?_, ?_, ?_, ?_, ?_, ?_⟩
    · show ((s.1.tables.resolveFailedBlocks cfg.stream reached).2.failedBlocks.map _).Nodup
      rw [keys_resolve]
      exact h.account.keys
    · intro hnone
      have hrow' : s.1.tables.states cfg.stream = none := hnone
      rw [hrow] at hrow'
      cases hrow'
    · intro state hs
      obtain rfl := Option.some.inj (hrow.symm.trans hs)
      refine ⟨fun r hr hstream hr' => hretried r hr hstream (.inl (hr'.trans hle)), ?_⟩
      intro r hr hstream hr' hunresolved
      obtain ⟨-, -, -, -, ⟨-, -, hres⟩ | ⟨-, hres⟩⟩ := of_mem_resolve hr
      · rw [hres] at hunresolved
        cases hunresolved
      · rw [hres hstream (hr'.trans hle)] at hunresolved
        cases hunresolved
    · exact fun r hr hstream hres => hretried r hr hstream (.inr hres)
    · intro r hr hstream
      obtain ⟨r₀, hr₀, hkey, hattempts, -⟩ := of_mem_resolve hr
      obtain ⟨hstream₀, hblock₀⟩ := Prod.mk.inj hkey
      rw [hattempts, hblock₀, h.account.attempts r₀ hr₀ (hstream₀ ▸ hstream), List.count_append]
      simp
    · intro block hblock
      obtain ⟨r, hr, hkey⟩ := h.account.recorded block (by simpa using hblock)
      obtain ⟨r', hr', hkey'⟩ := @exists_mem_resolve H s.1.tables cfg.stream reached r hr
      exact ⟨r', hr', hkey'.trans hkey⟩

theorem Working.record (h : Working cfg n s) {error : String} :
    Account cfg ((accounting cfg B).exec (.upsertFailedBlock cfg.stream (n + 1) error) o s).2 := by
  cases happlied : o.applied with
  | false =>
    have hafter :
        ((accounting cfg B).exec (.upsertFailedBlock cfg.stream (n + 1) error) o s).2 = s := by
      refine Prod.ext ?_ ?_
      · show (B.exec (.upsertFailedBlock cfg.stream (n + 1) error) o s.1).2 = s.1
        rw [B.exec_applied, happlied, if_neg Bool.false_ne_true]
      · show s.2 ++ (if cfg.stream = cfg.stream ∧ o.applied = true then _ else []) = s.2
        rw [happlied, if_neg (by simp), List.append_nil]
    rw [hafter]
    exact h.account
  | true =>
    have hafter : ((accounting cfg B).exec (.upsertFailedBlock cfg.stream (n + 1) error) o s).2 =
        ({ s.1 with tables := s.1.tables.upsertFailedBlock cfg.stream (n + 1) error },
          s.2 ++ [.failed (n + 1)]) := by
      refine Prod.ext ?_ ?_
      · show (B.exec (.upsertFailedBlock cfg.stream (n + 1) error) o s.1).2 = _
        rw [B.exec_applied, happlied, if_pos rfl]
        rfl
      · show s.2 ++ (if cfg.stream = cfg.stream ∧ o.applied = true then _ else []) = _
        rw [happlied, if_pos ⟨rfl, rfl⟩]
    rw [hafter]
    obtain ⟨row, hrow, hle⟩ := h.below
    have hkeys := h.account.keys
    refine ⟨Table.nodup_upsert hkeys, ?_, ?_, ?_, ?_, ?_⟩
    · intro hnone
      have hrow' : s.1.tables.states cfg.stream = none := hnone
      rw [hrow] at hrow'
      cases hrow'
    · intro state hs
      obtain rfl := Option.some.inj (hrow.symm.trans hs)
      have hold : ∀ r ∈ (s.1.tables.upsertFailedBlock cfg.stream (n + 1) error).failedBlocks,
          r.blockNumber ≤ row.lastProcessedBlock → r ∈ s.1.tables.failedBlocks := by
        intro r hr hr'
        rcases of_mem_record hkeys hr with ⟨hkey, -⟩ | ⟨-, hmem⟩
        · have hblock : r.blockNumber = n + 1 := congrArg Prod.snd hkey
          omega
        · exact hmem
      constructor
      · intro r hr hstream hr'
        refine ((h.account.row row hrow).retried r (hold r hr hr') hstream hr').append ?_
        simp only [List.mem_singleton, Mark.failed.injEq]
        omega
      · intro r hr hstream hr' hunresolved
        refine ((h.account.row row hrow).unclean r (hold r hr hr') hstream hr' hunresolved).append ?_
        simp
    · intro r hr hstream hres
      rcases of_mem_record hkeys hr with ⟨-, hunresolved, -⟩ | ⟨hkey, hmem⟩
      · rw [hunresolved] at hres
        cases hres
      · refine (h.account.resolved r hmem hstream hres).append ?_
        simp only [List.mem_singleton, Mark.failed.injEq]
        exact fun hblock => hkey (Prod.ext hstream hblock)
    · intro r hr hstream
      rw [List.count_append]
      rcases of_mem_record hkeys hr with ⟨hkey, -, hfirst⟩ | ⟨hkey, hmem⟩
      · have hblock : r.blockNumber = n + 1 := congrArg Prod.snd hkey
        rw [hblock, List.count_singleton_self]
        rcases hfirst with ⟨r₀, hr₀, hkey₀, hattempts⟩ | ⟨hnone, hattempts⟩
        · have hblock₀ : r₀.blockNumber = n + 1 := congrArg Prod.snd hkey₀
          rw [hattempts, h.account.attempts r₀ hr₀ (congrArg Prod.fst hkey₀), hblock₀]
        · have hnew : Mark.failed (n + 1) ∉ s.2 := by
            intro hmark
            obtain ⟨r₀, hr₀, hkey₀⟩ := h.account.recorded (n + 1) hmark
            exact hnone r₀ hr₀ hkey₀
          rw [hattempts, List.count_eq_zero_of_not_mem hnew]
      · have hother : Mark.failed r.blockNumber ∉ [Mark.failed (n + 1)] := by
          simp only [List.mem_singleton, Mark.failed.injEq]
          exact fun hblock => hkey (Prod.ext hstream hblock)
        rw [List.count_eq_zero_of_not_mem hother]
        exact h.account.attempts r hmem hstream
    · intro block hblock
      by_cases hnew : block = n + 1
      · subst hnew
        exact ⟨_, Table.mem_upsert_self, rfl⟩
      · obtain ⟨r, hr, hkey⟩ := h.account.recorded block (by simpa [hnew] using hblock)
        refine ⟨r, Table.mem_upsert_of_mem hr fun hsame => ?_, hkey⟩
        rw [hkey] at hsame
        exact absurd (congrArg Prod.snd hsame) hnew

end steps

section tick

variable {cfg : StreamSetup} {B : Backend H (SetupCall H) X W} {n reached : Nat}

theorem account_kept : (accounting cfg B).Kept (Account cfg) := ⟨Account.others, id⟩

theorem working_kept : (accounting cfg B).Kept (Working cfg n) :=
  ⟨Working.others, Working.account⟩

theorem worked_kept : (accounting cfg B).Kept (Worked cfg n reached) :=
  ⟨Worked.others, fun h => h.working.account⟩

theorem await_unmarked {K : MarkedState H W → Prop} (hK : (accounting cfg B).Kept K)
    {call : Call H (SetupCall H) β} (hquiet : call.isQuiet cfg.stream)
    (htarget : call.target cfg.stream = none) :
    (accounting cfg B).Triple K (Async.await call) fun _ => K :=
  .await hK (fun _ => hK) fun _ _ hs _ => ⟨trivial, hK.stable hs (others_exec hquiet htarget)⟩

theorem await_working {call : Call H (SetupCall H) β} (hquiet : call.isQuiet cfg.stream)
    (htarget : ∀ m, call.target cfg.stream = some m → m ≤ n) :
    (accounting cfg B).Triple (Working cfg n) (Async.await call) fun _ => Working cfg n :=
  .await working_kept (fun _ => working_kept) fun _ _ hs _ => ⟨trivial, hs.move hquiet htarget⟩

theorem returns_account {K : MarkedState H W → Prop} (hK : (accounting cfg B).Kept K)
    {r : Except Failure α} :
    (accounting cfg B).Triple K (.done r) fun _ => Account cfg :=
  .done hK fun _ hs => hK.keep hs

theorem recordError_kept {K : MarkedState H W → Prop} (hK : (accounting cfg B).Kept K)
    (error : String) :
    (accounting cfg B).Triple K (Checkpoints.recordError cfg.stream error) fun _ => K :=
  .bind (await_unmarked hK ⟨rfl, fun _ _ => rfl⟩ (if_pos rfl)) (fun _ => .done hK fun _ hs => hs)
    fun _ _ hs => hs

theorem handleSourceFailure_account {fromBlock lastProcessedBlock : Nat} {error : Failure} :
    (accounting cfg B).Triple (Account cfg)
      (Scanner.handleSourceFailure cfg.options fromBlock lastProcessedBlock error)
      fun _ => Account cfg :=
  .bind (recordError_kept account_kept _) (fun _ => returns_account account_kept) fun _ _ hs => hs

theorem cascade_working {target : Nat} (hle : target ≤ n) (reason : String)
    (rest : List IndexerStream) :
    (accounting cfg B).Triple (Working cfg n) (Scanner.cascade cfg.options target reason rest)
      fun _ => Working cfg n := by
  induction rest with
  | nil => exact .done working_kept fun _ hs => hs
  | cons dependent rest ih =>
    refine .bind (Q := fun _ => Working cfg n) ?_ (fun _ => ih) fun _ _ hs => hs
    refine .bind (await_unmarked working_kept ⟨rfl, fun _ _ => rfl⟩ rfl) (fun current => ?_)
      fun _ _ hs => hs
    cases current with
    | none => exact .done working_kept fun _ hs => hs
    | some state =>
      dsimp only
      split
      · exact .done working_kept fun _ hs => hs
      · exact .bind (await_working ⟨rfl, fun _ _ => rfl⟩ fun _ hm => (target_rollback hm).trans hle)
          (fun _ => .done working_kept fun _ hs => hs) fun _ _ hs => hs

theorem rollback_working {recordedBlock target : Nat} (hle : target ≤ n) :
    (accounting cfg B).Triple (Working cfg n) (Scanner.rollback cfg.options recordedBlock target)
      fun _ => Working cfg n := by
  refine .bind (await_unmarked working_kept ⟨rfl, fun _ _ => rfl⟩ rfl) (fun _ => ?_)
    fun _ _ hs => hs
  refine .bind (await_working ⟨rfl, fun _ _ => rfl⟩ fun _ hm => (target_rollback hm).trans hle)
    (fun _ => ?_) fun _ _ hs => hs
  exact cascade_working hle _ _

theorem handleReorg_working [DecidableEq H] (recordedHash : Option H) :
    (accounting cfg B).Triple (Working cfg n) (Scanner.handleReorg cfg.options n recordedHash)
      fun _ => Working cfg n := by
  unfold Scanner.handleReorg
  split
  · exact .done working_kept fun _ hs => hs
  · refine .bind (.attempt (Q := fun _ => Working cfg n)
      (await_unmarked working_kept ⟨rfl, fun _ _ => rfl⟩ rfl)) (fun current => ?_) fun _ _ hs => hs
    cases current with
    | error _ => exact .done working_kept fun _ hs => hs
    | ok currentHash =>
      dsimp only
      split
      · rename_i target _ _ hverdict
        have hle : target ≤ n := by
          rw [(checkForReorg_reorg hverdict).2.2.2]
          exact Nat.sub_le ..
        exact .bind (rollback_working hle) (fun _ => .done working_kept fun _ hs => hs)
          fun _ _ hs => hs
      · exact .done working_kept fun _ hs => hs

theorem advance_account {hash : H} :
    (accounting cfg B).Triple (Worked cfg n reached)
      (Checkpoints.advance cfg.stream reached hash : Program H (SetupCall H) (IndexerState H))
      fun r s => Account cfg s ∧ ∀ a, r = .ok a → Working cfg reached s := by
  have hmid : ∀ r : Except Failure (IndexerState H), (accounting cfg B).Kept fun s =>
      Account cfg s ∧ ∀ a, r = .ok a → Working cfg reached s := fun r =>
    ⟨fun h hst => ⟨h.1.others hst, fun a ha => (h.2 a ha).others hst⟩, And.left⟩
  have hwrite : (accounting cfg B).Triple (Worked cfg n reached)
      (Async.await (.updateState cfg.stream (.advance reached hash)))
      fun r s => Account cfg s ∧ ∀ a, r = .ok a → Working cfg reached s :=
    .await worked_kept hmid fun _ _ hs _ => ⟨trivial, hs.advance hash⟩
  refine .bind (await_unmarked worked_kept ⟨rfl, fun _ _ => rfl⟩ rfl) (fun current => ?_)
    fun _ s hs => ⟨hs.working.account, nofun⟩
  cases current with
  | none => exact hwrite
  | some state =>
    dsimp only
    split
    · exact .done worked_kept fun s hs => ⟨hs.working.account, nofun⟩
    · exact hwrite

theorem ingest_account {checkpoint : IndexerState H} {confirmed : Option Nat} {boundary : Nat}
    {batch : LogBatch H} {hash : H} :
    (accounting cfg B).Triple (Working cfg checkpoint.lastProcessedBlock)
      (Scanner.ingest cfg.options checkpoint confirmed boundary batch hash)
      fun _ => Account cfg := by
  have hprocess : (accounting cfg B).Triple (Working cfg checkpoint.lastProcessedBlock)
      (Async.await (.ext (.process batch.logs
        (checkpoint.lastProcessedBlock + 1, batch.reachedBlock))))
      fun r s => Working cfg checkpoint.lastProcessedBlock s ∧ ∀ a, r = .ok a →
        Worked cfg checkpoint.lastProcessedBlock batch.reachedBlock s :=
    .await working_kept (fun _ => ⟨fun h hst => ⟨h.1.others hst, fun a ha =>
      (h.2 a ha).others hst⟩, fun h => h.1.account⟩) fun _ _ hs _ => ⟨trivial, hs.process⟩
  refine .bind (.attempt (Q := fun r s => Working cfg checkpoint.lastProcessedBlock s ∧
      ∀ a, r = .ok (.ok a) → Worked cfg checkpoint.lastProcessedBlock batch.reachedBlock s)
    (hprocess.imp (fun _ hs => hs) fun r s hs => ⟨hs.1, fun a ha => hs.2 a (Except.ok.inj ha)⟩))
    (fun processed => ?_) fun _ _ hs => hs.1.account
  cases processed with
  | error error =>
    refine Protocol.Triple.imp (P := Working cfg checkpoint.lastProcessedBlock) ?_
      (fun _ hs => hs.1) fun _ _ hs => hs
    dsimp only
    split
    · exact returns_account working_kept
    · refine .bind (recordError_kept working_kept _) (fun _ => ?_) fun _ _ hs => hs.account
      refine .bind (Q := fun _ => Account cfg) ?_ (fun _ => returns_account account_kept)
        fun _ _ hs => hs
      exact .await working_kept (fun _ => account_kept) fun _ _ hs _ => ⟨trivial, hs.record⟩
  | ok a =>
    refine Protocol.Triple.imp (P := Worked cfg checkpoint.lastProcessedBlock batch.reachedBlock)
      ?_ (fun _ hs => hs.2 a rfl) fun _ _ hs => hs
    refine .bind (.attempt (Q := fun _ => Account cfg) ?_) (fun advanced => ?_) fun _ _ hs => hs
    · refine .bind advance_account (fun state => ?_) fun _ _ hs => hs.1
      refine Protocol.Triple.imp (P := Working cfg batch.reachedBlock) ?_
        (fun _ hs => hs.2 state rfl) fun _ _ hs => hs
      refine .bind (Q := fun _ => Account cfg) ?_ (fun _ => returns_account account_kept)
        fun _ _ hs => hs
      exact .await working_kept (fun _ => account_kept) fun _ _ hs _ => ⟨trivial, hs.resolve⟩
    · cases advanced with
      | error error =>
        dsimp only
        split
        · exact returns_account account_kept
        · exact .bind (recordError_kept account_kept _)
            (fun _ => returns_account account_kept) fun _ _ hs => hs
      | ok _ => exact returns_account account_kept

theorem scan_account {checkpoint : IndexerState H} {confirmed : Option Nat} {boundary : Nat} :
    (accounting cfg B).Triple (Working cfg checkpoint.lastProcessedBlock)
      (Scanner.scan cfg.options checkpoint confirmed boundary) fun _ => Account cfg := by
  have hfails {error : Failure} {block lastProcessedBlock : Nat} :
      (accounting cfg B).Triple (Working cfg checkpoint.lastProcessedBlock)
        (Scanner.handleSourceFailure cfg.options block lastProcessedBlock error)
        fun _ => Account cfg :=
    handleSourceFailure_account.imp (fun _ hs => hs.account) fun _ _ hs => hs
  refine .bind (await_unmarked working_kept ⟨rfl, fun _ _ => rfl⟩ rfl) (fun addresses => ?_)
    fun _ _ hs => hs.account
  split
  · exact returns_account working_kept
  · refine .bind (.attempt (Q := fun _ => Working cfg checkpoint.lastProcessedBlock)
      (await_unmarked working_kept ⟨rfl, fun _ _ => rfl⟩ rfl)) (fun fetched => ?_)
      fun _ _ hs => hs.account
    cases fetched with
    | error failure =>
      cases failure with
      | rangeTooWide _ _ => exact returns_account working_kept
      | error _ _ => exact hfails
    | ok batch =>
      dsimp only
      split
      · exact returns_account working_kept
      · refine .bind (.attempt (Q := fun _ => Working cfg checkpoint.lastProcessedBlock)
          (await_unmarked working_kept ⟨rfl, fun _ _ => rfl⟩ rfl)) (fun read => ?_)
          fun _ _ hs => hs.account
        cases read with
        | error _ => exact hfails
        | ok hash => exact ingest_account

theorem boundaryOf_working {confirmed : Option Nat} :
    (accounting cfg B).Triple (Working cfg n) (Scanner.boundaryOf cfg.options confirmed)
      fun _ => Working cfg n := by
  unfold Scanner.boundaryOf
  split
  · rename_i confirmed maxBlock hcap
    obtain rfl : maxBlock = Async.await (.ext .maxBlock) := by
      cases hcapped : cfg.capped <;> simp [StreamSetup.options, hcapped] at hcap
      exact hcap.symm
    refine .bind (await_unmarked working_kept ⟨rfl, fun _ _ => rfl⟩ rfl) (fun ceiling => ?_)
      fun _ _ hs => hs
    cases ceiling with
    | none => exact .done working_kept fun _ hs => hs
    | some ceiling => exact .done working_kept fun _ hs => hs
  · exact .done working_kept fun _ hs => hs

/-- A tick leaves the account in order, wherever it is cut off and whatever fails. -/
theorem tick_account [DecidableEq H] :
    (accounting cfg B).Triple (Account cfg) (Scanner.tick cfg.options) fun _ => Account cfg := by
  have hload : (accounting cfg B).Triple (Account cfg)
      (Checkpoints.getOrCreate cfg.stream cfg.startBlock : Program H (SetupCall H) _)
      fun r s => Account cfg s ∧ ∀ checkpoint, r = .ok checkpoint →
        Working cfg checkpoint.lastProcessedBlock s :=
    .await account_kept (fun _ => ⟨fun h hst => ⟨h.1.others hst, fun a ha =>
      (h.2 a ha).others hst⟩, And.left⟩) fun _ _ hs _ => ⟨trivial, hs.load⟩
  refine .bind hload (fun checkpoint => ?_) fun _ _ hs => hs.1
  refine Protocol.Triple.imp (P := Working cfg checkpoint.lastProcessedBlock) ?_
    (fun _ hs => hs.2 checkpoint rfl) fun _ _ hs => hs
  split
  · exact returns_account working_kept
  · refine .bind (handleReorg_working _) (fun reorged => ?_) fun _ _ hs => hs.account
    cases reorged with
    | true => exact returns_account working_kept
    | false =>
      refine .bind (.attempt (Q := fun _ => Working cfg checkpoint.lastProcessedBlock)
        (await_unmarked working_kept ⟨rfl, fun _ _ => rfl⟩ rfl)) (fun head => ?_)
        fun _ _ hs => hs.account
      cases head with
      | error _ =>
        exact handleSourceFailure_account.imp (fun _ hs => hs.account) fun _ _ hs => hs
      | ok head =>
        refine .bind boundaryOf_working (fun boundary => ?_) fun _ _ hs => hs.account
        cases boundary with
        | none => exact returns_account working_kept
        | some boundary =>
          dsimp only
          split
          · exact returns_account working_kept
          · exact scan_account

end tick

inductive Outside
  | pullBack (target : Nat) (reason : String)
  | setPaused (paused : Bool)
  | recordOther (other : IndexerStream) (block : Nat) (error : String)
  | resolveOther (other : IndexerStream) (throughBlock : Nat)

def Outside.apply (stream : IndexerStream) (t : Tables H) : Outside → Tables H
  | pullBack target reason =>
    match t.states stream with
    | none => t
    | some state =>
      if state.lastProcessedBlock ≤ target then t
      else t.setState stream (StateUpdate.apply state (.rollbackTo target reason))
  | setPaused paused =>
    match t.states stream with
    | none => t
    | some state => t.setState stream { state with isPaused := paused }
  | recordOther other block error =>
    if other = stream then t else t.upsertFailedBlock other block error
  | resolveOther other throughBlock =>
    if other = stream then t else (t.resolveFailedBlocks other throughBlock).2

section runs

variable {cfg : StreamSetup} {B : Backend H (SetupCall H) X W} {s : MarkedState H W}

theorem others_setState {state state' : IndexerState H}
    (hs : s.1.tables.states cfg.stream = some state)
    (hle : state'.lastProcessedBlock ≤ state.lastProcessedBlock) :
    Others cfg s ({ s.1 with tables := s.1.tables.setState cfg.stream state' }, s.2) := by
  refine ⟨rfl, fun _ _ => Iff.rfl, id, fun _ _ => ⟨_, Tables.setState_states_self ..⟩, ?_⟩
  intro state'' hs''
  obtain rfl := Option.some.inj ((Tables.setState_states_self ..).symm.trans hs'')
  exact ⟨state, hs, hle⟩

theorem others_outside (e : Outside) :
    Others cfg s ({ s.1 with tables := e.apply cfg.stream s.1.tables }, s.2) := by
  have hsame : Others cfg s ({ s.1 with tables := s.1.tables }, s.2) := .refl s
  cases e with
  | pullBack target reason =>
    cases hs : s.1.tables.states cfg.stream with
    | none =>
      simp only [Outside.apply, hs]
      exact hsame
    | some state =>
      simp only [Outside.apply, hs]
      split
      · exact hsame
      · rename_i hlt
        exact others_setState hs (not_le.mp hlt).le
  | setPaused paused =>
    cases hs : s.1.tables.states cfg.stream with
    | none =>
      simp only [Outside.apply, hs]
      exact hsame
    | some state =>
      simp only [Outside.apply, hs]
      exact others_setState hs le_rfl
  | recordOther other block error =>
    simp only [Outside.apply]
    split
    · exact hsame
    · rename_i hne
      refine ⟨rfl, fun r hr => ⟨fun hmem => ?_, fun hmem => ?_⟩, Table.nodup_upsert,
        fun state hs => ⟨state, hs⟩, fun state hs => ⟨state, hs, le_rfl⟩⟩
      · refine (Table.of_mem_upsert hmem).resolve_left ?_
        rintro rfl
        exact hne hr
      · refine Table.mem_upsert_of_mem hmem fun hkey => ?_
        exact absurd ((congrArg Prod.fst hkey).symm.trans hr) hne
  | resolveOther other throughBlock =>
    simp only [Outside.apply]
    split
    · exact hsame
    · rename_i hne
      refine ⟨rfl, fun r hr => ⟨fun hmem => ?_, fun hmem => ?_⟩, fun hk => ?_,
        fun state hs => ⟨state, hs⟩, fun state hs => ⟨state, hs, le_rfl⟩⟩
      · obtain ⟨r₀, hr₀, -, -, ⟨hother, -⟩ | ⟨rfl, -⟩⟩ := of_mem_resolve hmem
        · exact absurd (hother.symm.trans hr) hne
        · exact hr₀
      · refine List.mem_map.mpr ⟨r, hmem, if_neg fun hcase => ?_⟩
        exact hne (hcase.1.symm.trans hr)
      · show ((s.1.tables.resolveFailedBlocks other throughBlock).2.failedBlocks.map _).Nodup
        rw [keys_resolve]
        exact hk

variable [DecidableEq H]

def StreamSetup.accounts (cfg : StreamSetup) (B : Backend H (SetupCall H) X W) :
    System Unit (Call H (SetupCall H)) Failure ScanTickResult (Answers X) Outside
      (MarkedState H W) where
  exec _ := (accounting cfg B).exec
  body _ := Scanner.tick cfg.options
  ready _ _ := true
  start _ := id
  finish _ _ := id
  env e s := ({ s.1 with tables := e.apply cfg.stream s.1.tables }, s.2)
  crash := id

abbrev AccountConfig (H W : Type) :=
  System.Config Unit (Call H (SetupCall H)) Failure ScanTickResult (MarkedState H W)

abbrev AccountStep (cfg : StreamSetup) (B : Backend H (SetupCall H) X W)
    (c : AccountConfig H W) (l : System.Label Unit (Answers X) Outside) (c' : AccountConfig H W) :
    Prop :=
  True ∧ (cfg.accounts B).step c l = some c'

def accountOutline (cfg : StreamSetup) (B : Backend H (SetupCall H) X W) :
    (cfg.accounts B).Outline fun _ _ => True where
  protocol _ := accounting cfg B
  idle _ := Account cfg
  post _ _ := Account cfg
  exec _ _ _ _ _ := rfl
  allow _ _ := trivial
  peer hne := absurd (Subsingleton.elim _ _) hne
  rest := Account.others
  start _ _ hidle := ⟨tick_account _ hidle, fun _ hne => absurd (Subsingleton.elim _ _) hne⟩
  finish h := ⟨h, fun _ hne => absurd (Subsingleton.elim _ _) hne⟩
  env _ _ := others_outside _
  crash := by
    intro c _ h i
    cases htask : c.tasks i with
    | none => exact (h i).1 htask
    | some p => exact (h i).2 (by simp [htask])

/-- Whatever fails, crashes or interferes, every failure that was recorded has its row, which counts
them; a block counts as resolved, or lies below the checkpoint, only if it was processed after it
last failed; and one that lies below the checkpoint unresolved is one that the latest advance has
yet to clear. -/
theorem failedBlocks_run (cfg : StreamSetup) (B : Backend H (SetupCall H) X W) (w : World H W)
    (hkeys : (w.tables.failedBlocks.map FailedBlock.key).Nodup)
    (hnone : ∀ r ∈ w.tables.failedBlocks, r.stream ≠ cfg.stream)
    {ls : List (System.Label Unit (Answers X) Outside)} {c : AccountConfig H W}
    (hrun : Trace (AccountStep cfg B) (.rest (w, [])) ls c) :
    (∀ block, .failed block ∈ c.world.2 →
      ∃ r ∈ c.world.1.tables.failedBlocks, r.key = (cfg.stream, block)) ∧
    ∀ r ∈ c.world.1.tables.failedBlocks, r.stream = cfg.stream →
      r.attempts = c.world.2.count (.failed r.blockNumber) ∧
        (r.resolved = true → Retried c.world.2 r.blockNumber) ∧
        ∀ state, c.world.1.tables.states cfg.stream = some state →
          r.blockNumber ≤ state.lastProcessedBlock →
            Retried c.world.2 r.blockNumber ∧ (r.resolved = false → Unclean c.world.2) := by
  have hstart : Account cfg (w, ([] : List Mark)) := by
    refine ⟨hkeys, fun _ => hnone, fun state _ => ⟨fun r hr hstream => absurd hstream (hnone r hr),
      fun r hr hstream => absurd hstream (hnone r hr)⟩,
      fun r hr hstream => absurd hstream (hnone r hr),
      fun r hr hstream => absurd hstream (hnone r hr), nofun⟩
  have haccount : Account cfg c.world :=
    (accountOutline cfg B).keep_of_inv (i := ())
      ((accountOutline cfg B).inv_run ((accountOutline cfg B).inv_rest fun _ => hstart) hrun)
      fun _ hs => hs
  refine ⟨haccount.recorded, fun r hr hstream => ?_⟩
  refine ⟨haccount.attempts r hr hstream, haccount.resolved r hr hstream, fun state hs hle => ?_⟩
  have hsound := haccount.row state hs
  exact ⟨hsound.retried r hr hstream hle, hsound.unclean r hr hstream hle⟩

end runs

def failingTick : List (System.Label Unit (Answers Unit) Outside) :=
  .start () :: List.replicate 5 (.call () throughCall) ++
    .call () { throughCall with fault := some { failure := .error none "bad log", applied := false } } ::
      List.replicate 2 (.call () throughCall) ++ [.finish ()]

/-- Block 1 fails twice, then goes through. -/
theorem failedBlocks_run_retried : ∃ c : AccountConfig Nat Unit,
    Trace (AccountStep idleStream idleBackend) (.rest (emptyWorld, []))
        (failingTick ++ failingTick ++
          .start () :: List.replicate 9 (.call () throughCall) ++ [.finish ()]) c ∧
      ∃ r ∈ c.world.1.tables.failedBlocks, r.stream = .factory ∧ r.blockNumber = 1 ∧
        r.resolved = true ∧ c.world.2.count (.failed 1) = 2 ∧ r.attempts = 2 ∧
          Retried c.world.2 1 := by
  obtain ⟨c, hrun, htest⟩ : ∃ c : AccountConfig Nat Unit,
      Trace (AccountStep idleStream idleBackend) (.rest (emptyWorld, []))
        (failingTick ++ failingTick ++
          .start () :: List.replicate 9 (.call () throughCall) ++ [.finish ()]) c ∧
      (decide (c.world.2.count (.failed 1) = 2) && c.world.1.tables.failedBlocks.any fun r =>
        decide (r.stream = .factory ∧ r.blockNumber = 1 ∧ r.resolved = true)) = true :=
    System.Run.exists_of_any (by decide)
  obtain ⟨hcount, hrow⟩ := (Bool.and_eq_true ..).mp htest
  obtain ⟨r, hr, hcase⟩ := List.any_eq_true.mp hrow
  obtain ⟨hstream, hblock, hres⟩ := of_decide_eq_true hcase
  have hcount := of_decide_eq_true hcount
  obtain ⟨hattempts, hresolved, -⟩ := (failedBlocks_run idleStream idleBackend emptyWorld
    List.nodup_nil nofun hrun).2 r hr hstream
  rw [hblock] at hattempts hresolved
  exact ⟨c, hrun, r, hr, hstream, hblock, hres, hcount, hattempts.trans hcount, hresolved hres⟩

end Stunks.Indexer
