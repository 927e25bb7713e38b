import Stunks.Lib.Table
import Stunks.Lib.Workers

/-! `block-cache.ts`: the timestamps of blocks, in a cache that both streams read at once.  Log
output is left out. -/

namespace Stunks.Indexer.BlockTimeCache

structure Options where
  maxEntries : Nat
  batchSize : Nat
  minBatchSize : Nat
  concurrency : Nat
  readBatch : Bool

/-- Milliseconds; `none` is an invalid date. -/
abbrev Date := Option Nat

def toDate (unixSeconds : Nat) : Date :=
  if unixSeconds * 1000 ≤ 8640000000000000 then some (unixSeconds * 1000) else none

/-- Oldest first. -/
abbrev Entries := List (Nat × Date)

def cached (entries : Entries) (blockNumber : Nat) : Option Date :=
  (entries.find? fun entry => entry.1 = blockNumber).map Prod.snd

def rememberEntry (o : Options) (entries : Entries) (blockNumber unixSeconds : Nat) : Entries :=
  let kept := if o.maxEntries ≤ entries.length then entries.tail else entries
  Table.upsert Prod.fst kept (blockNumber, toDate unixSeconds)

/-- Where a call of `warm` stands: a batch is awaited, or workers read the blocks that remain. -/
inductive Phase
  | batching (offset : Nat)
  | reading (remaining : List Nat) (workers : Workers.Pool Nat Unit Unit) (back : List Nat)

structure Warm where
  blockNumbers : List Nat
  missing : List Nat
  phase : Phase
  batched : List Nat
  single : List Nat

structure State where
  entries : Entries
  batchUnsupported : Bool
  gets : List (Option Nat)
  warms : List Warm
  answered : List (Nat × Nat)
  returned : List (Nat × Date)

inductive Event
  | get (blockNumber : Nat)
  | getAnswered (call unixSeconds : Nat)
  | getFailed (call : Nat)
  | warm (blockNumbers : List Nat)
  | batchAnswered (call : Nat) (timestamps : List Nat)
  /-- `permanent` for a `BatchNotSupportedError`. -/
  | batchFailed (call : Nat) (permanent : Bool)
  | workerAnswered (call worker unixSeconds : Nat)
  | workerFailed (call worker : Nat)
  | workerResumed (call worker : Nat)

def Event.permanent : Event → Bool
  | batchFailed _ permanent => permanent
  | _ => false

def State.start : State where
  entries := []
  batchUnsupported := false
  gets := []
  warms := []
  answered := []
  returned := []

def Warm.startReading (o : Options) (entries : Entries) (w : Warm) : Warm :=
  let remaining := w.missing.filter fun blockNumber => (cached entries blockNumber).isNone
  let workers := Workers.start remaining (min o.concurrency remaining.length)
  { w with phase := .reading remaining workers [], single := workers.asked }

def Warm.chunk (o : Options) (w : Warm) (offset : Nat) : List Nat :=
  (w.missing.drop offset).take o.batchSize

def Warm.nextBatch (o : Options) (w : Warm) (offset : Nat) : Warm :=
  { w with phase := .batching offset, batched := w.batched ++ w.chunk o offset }

namespace State

variable (o : Options) (s : State)

def remember (blockNumber unixSeconds : Nat) : State :=
  { s with
    entries := rememberEntry o s.entries blockNumber unixSeconds
    answered := s.answered ++ [(blockNumber, unixSeconds)] }

def rememberMany (blocks : List (Nat × Nat)) : State :=
  blocks.foldl (fun s block => s.remember o block.1 block.2) s

def setWarm (call : Nat) (w : Warm) : State := { s with warms := s.warms.set call w }

def get (blockNumber : Nat) : State :=
  match cached s.entries blockNumber with
  | some timestamp => { s with returned := s.returned ++ [(blockNumber, timestamp)] }
  | none => { s with gets := s.gets ++ [some blockNumber] }

def warm (blockNumbers : List Nat) : State :=
  let missing := (Table.insertMany id [] blockNumbers).filter fun blockNumber =>
    (cached s.entries blockNumber).isNone
  let w : Warm := {
    blockNumbers, missing, batched := [], single := [], phase := .batching 0 }
  let w :=
    if missing.length > 0 ∧ o.readBatch = true ∧ s.batchUnsupported = false ∧
        o.minBatchSize ≤ missing.length then w.nextBatch o 0
    else w.startReading o s.entries
  { s with warms := s.warms ++ [w] }

def batchAnswered (call : Nat) (w : Warm) (offset : Nat) (timestamps : List Nat) : State :=
  if timestamps.length ≠ (w.chunk o offset).length then s.setWarm call (w.startReading o s.entries)
  else
    let s := s.rememberMany o ((w.chunk o offset).zip timestamps)
    let offset := offset + o.batchSize
    s.setWarm call
      (if offset < w.missing.length then w.nextBatch o offset else w.startReading o s.entries)

def resume (call : Nat) (w : Warm) (remaining : List Nat) (taken : Nat)
    (workers : Workers.Pool Nat Unit Unit) (back : List Nat) : State :=
  let next := remaining[taken]?
  let hit := next.any fun blockNumber => (cached s.entries blockNumber).isSome
  s.setWarm call
    { w with
      phase := .reading remaining workers (if hit then back ++ [taken] else back)
      single := w.single ++ if hit then [] else next.toList }

def step : Event → Option State
  | .get blockNumber => some (s.get blockNumber)
  | .getAnswered call unixSeconds =>
    match s.gets[call]? with
    | some (some blockNumber) =>
      let s := s.remember o blockNumber unixSeconds
      some { s with
        gets := s.gets.set call none
        returned := s.returned ++ [(blockNumber, toDate unixSeconds)] }
    | _ => none
  | .getFailed call =>
    match s.gets[call]? with
    | some (some _) => some { s with gets := s.gets.set call none }
    | _ => none
  | .warm blockNumbers => some (s.warm o blockNumbers)
  | .batchAnswered call timestamps =>
    match s.warms[call]? with
    | some w =>
      match w.phase with
      | .batching offset => some (s.batchAnswered o call w offset timestamps)
      | .reading .. => none
    | none => none
  | .batchFailed call permanent =>
    match s.warms[call]? with
    | some w =>
      match w.phase with
      | .batching _ =>
        let s := { s with batchUnsupported := s.batchUnsupported || permanent }
        some (s.setWarm call (w.startReading o s.entries))
      | .reading .. => none
    | none => none
  | .workerAnswered call worker unixSeconds =>
    match s.warms[call]? with
    | some w =>
      match w.phase with
      | .batching _ => none
      | .reading remaining workers back =>
        match workers.tasks[worker]? with
        | some (.awaiting index blockNumber) =>
          if back.contains index then none
          else
            let s := s.remember o blockNumber unixSeconds
            some (s.setWarm call { w with phase := .reading remaining workers (back ++ [index]) })
        | _ => none
    | none => none
  | .workerFailed call worker =>
    match s.warms[call]? with
    | some w =>
      match w.phase with
      | .batching _ => none
      | .reading remaining workers back =>
        match workers.tasks[worker]? with
        | some (.awaiting index _) =>
          if back.contains index then none
          else
            (Workers.step remaining (fun _ => ()) workers (.failed worker ())).map fun workers' =>
              s.setWarm call { w with phase := .reading remaining workers' back }
        | _ => none
    | none => none
  | .workerResumed call worker =>
    match s.warms[call]? with
    | some w =>
      match w.phase with
      | .batching _ => none
      | .reading remaining workers back =>
        match workers.tasks[worker]? with
        | some (.awaiting index _) =>
          if back.contains index then
            (Workers.step remaining (fun _ => ()) workers (.answered worker)).map fun workers' =>
              s.resume call w remaining workers.next workers' back
          else none
        | _ => none
    | none => none

end State

abbrev Run (o : Options) : State → List Event → State → Prop :=
  Trace fun s event s' => s.step o event = some s'

inductive Took (o : Options) (s : State) : Event → State → Prop
  | get (blockNumber : Nat) : Took o s (.get blockNumber) (s.get blockNumber)
  | getAnswered {call blockNumber : Nat} (unixSeconds : Nat)
      (hcall : s.gets[call]? = some (some blockNumber)) :
      Took o s (.getAnswered call unixSeconds)
        { s.remember o blockNumber unixSeconds with
          gets := s.gets.set call none
          returned := s.returned ++ [(blockNumber, toDate unixSeconds)] }
  | getFailed {call blockNumber : Nat} (hcall : s.gets[call]? = some (some blockNumber)) :
      Took o s (.getFailed call) { s with gets := s.gets.set call none }
  | warm (blockNumbers : List Nat) : Took o s (.warm blockNumbers) (s.warm o blockNumbers)
  | batchAnswered {call offset : Nat} {w : Warm} (timestamps : List Nat)
      (hcall : s.warms[call]? = some w) (hphase : w.phase = .batching offset) :
      Took o s (.batchAnswered call timestamps) (s.batchAnswered o call w offset timestamps)
  | batchFailed {call offset : Nat} {w : Warm} (permanent : Bool)
      (hcall : s.warms[call]? = some w) (hphase : w.phase = .batching offset) :
      Took o s (.batchFailed call permanent)
        (({ s with batchUnsupported := s.batchUnsupported || permanent } : State).setWarm call
          (w.startReading o s.entries))
  | workerAnswered {call worker index blockNumber : Nat} {w : Warm} {remaining back : List Nat}
      {workers : Workers.Pool Nat Unit Unit} (unixSeconds : Nat)
      (hcall : s.warms[call]? = some w) (hphase : w.phase = .reading remaining workers back)
      (htask : workers.tasks[worker]? = some (.awaiting index blockNumber))
      (hout : back.contains index = false) :
      Took o s (.workerAnswered call worker unixSeconds)
        ((s.remember o blockNumber unixSeconds).setWarm call
          { w with phase := .reading remaining workers (back ++ [index]) })
  | workerFailed {call worker index blockNumber : Nat} {w : Warm} {remaining back : List Nat}
      {workers workers' : Workers.Pool Nat Unit Unit}
      (hcall : s.warms[call]? = some w) (hphase : w.phase = .reading remaining workers back)
      (htask : workers.tasks[worker]? = some (.awaiting index blockNumber))
      (hout : back.contains index = false)
      (hstep : Workers.step remaining (fun _ => ()) workers (.failed worker ()) = some workers') :
      Took o s (.workerFailed call worker)
        (s.setWarm call { w with phase := .reading remaining workers' back })
  | workerResumed {call worker index blockNumber : Nat} {w : Warm} {remaining back : List Nat}
      {workers workers' : Workers.Pool Nat Unit Unit}
      (hcall : s.warms[call]? = some w) (hphase : w.phase = .reading remaining workers back)
      (htask : workers.tasks[worker]? = some (.awaiting index blockNumber))
      (hback : index ∈ back)
      (hstep : Workers.step remaining (fun _ => ()) workers (.answered worker) = some workers') :
      Took o s (.workerResumed call worker)
        (s.resume call w remaining workers.next workers' back)

theorem step_took {o : Options} {s s' : State} {event : Event} (h : s.step o event = some s') :
    Took o s event s' := by
  cases event with
  | get blockNumber =>
    cases h
    exact .get blockNumber
  | getAnswered call unixSeconds =>
    simp only [State.step] at h
    split at h <;> cases h
    exact .getAnswered unixSeconds ‹_›
  | getFailed call =>
    simp only [State.step] at h
    split at h <;> cases h
    exact .getFailed ‹_›
  | warm blockNumbers =>
    cases h
    exact .warm blockNumbers
  | batchAnswered call timestamps =>
    simp only [State.step] at h
    split at h
    · split at h <;> cases h
      exact .batchAnswered timestamps ‹_› ‹_›
    · cases h
  | batchFailed call permanent =>
    simp only [State.step] at h
    split at h
    · split at h <;> cases h
      exact .batchFailed permanent ‹_› ‹_›
    · cases h
  | workerAnswered call worker unixSeconds =>
    simp only [State.step] at h
    split at h
    · split at h
      · cases h
      split at h
      · split at h <;> cases h
        exact .workerAnswered unixSeconds ‹_› ‹_› ‹_› (Bool.eq_false_iff.mpr ‹_›)
      · cases h
    · cases h
  | workerFailed call worker =>
    simp only [State.step] at h
    split at h
    · split at h
      · cases h
      split at h
      · split at h
        · cases h
        obtain ⟨workers', hworkers, rfl⟩ := Option.map_eq_some_iff.mp h
        exact .workerFailed ‹_› ‹_› ‹_› (Bool.eq_false_iff.mpr ‹_›) hworkers
      · cases h
    · cases h
  | workerResumed call worker =>
    simp only [State.step] at h
    split at h
    · split at h
      · cases h
      split at h
      · split at h
        · rename_i hback
          obtain ⟨workers', hworkers, rfl⟩ := Option.map_eq_some_iff.mp h
          exact .workerResumed ‹_› ‹_› ‹_› (List.contains_iff_mem.mp hback) hworkers
        · cases h
      · cases h
    · cases h

section entries

variable {o : Options} {entries : Entries} {blockNumber unixSeconds : Nat}

theorem mem_of_cached {timestamp : Date} (h : cached entries blockNumber = some timestamp) :
    (blockNumber, timestamp) ∈ entries := by
  obtain ⟨entry, hfind, rfl⟩ := Option.map_eq_some_iff.mp h
  have hkey : entry.1 = blockNumber := by simpa using List.find?_some hfind
  rw [← hkey]
  exact List.mem_of_find?_eq_some hfind

theorem cached_isSome :
    (cached entries blockNumber).isSome = true ↔ blockNumber ∈ entries.map Prod.fst := by
  unfold cached
  rw [Option.isSome_map, List.find?_isSome, List.mem_map]
  exact exists_congr fun entry => and_congr_right fun _ => decide_eq_true_iff

theorem mem_rememberEntry {entry : Nat × Date}
    (h : entry ∈ rememberEntry o entries blockNumber unixSeconds) :
    entry = (blockNumber, toDate unixSeconds) ∨ entry ∈ entries := by
  refine (Table.of_mem_upsert h).imp_right fun hkept => ?_
  split at hkept
  · exact List.mem_of_mem_tail hkept
  · exact hkept

theorem nodup_rememberEntry (h : (entries.map Prod.fst).Nodup) :
    ((rememberEntry o entries blockNumber unixSeconds).map Prod.fst).Nodup := by
  refine Table.nodup_upsert ?_
  split
  · rw [List.map_tail]
    exact h.sublist (List.tail_sublist _)
  · exact h

theorem length_rememberEntry (h : entries.length ≤ max 1 o.maxEntries) :
    (rememberEntry o entries blockNumber unixSeconds).length ≤ max 1 o.maxEntries := by
  refine Nat.le_trans (Table.length_upsert_le ..) ?_
  split
  · rw [List.length_tail]
    omega
  · omega

theorem cached_rememberEntry (h : entries.length < o.maxEntries) {other : Nat}
    (hother : other = blockNumber ∨ (cached entries other).isSome = true) :
    (cached (rememberEntry o entries blockNumber unixSeconds) other).isSome = true := by
  unfold rememberEntry
  rw [if_neg (Nat.not_le.mpr h), cached_isSome]
  obtain rfl | hcached := hother
  · exact List.mem_map_of_mem (f := Prod.fst) Table.mem_upsert_self
  · obtain ⟨entry, hentry, rfl⟩ := List.mem_map.mp (cached_isSome.mp hcached)
    have hkept : ∃ kept ∈ Table.upsert Prod.fst entries (blockNumber, toDate unixSeconds),
        kept.1 = entry.1 := Table.exists_key_upsert hentry
    exact List.mem_map.mpr hkept

end entries

def State.Known (s : State) (blockNumber : Nat) : Prop :=
  ∃ unixSeconds, (blockNumber, unixSeconds) ∈ s.answered

def State.Told (s : State) (entry : Nat × Date) : Prop :=
  ∃ unixSeconds, (entry.1, unixSeconds) ∈ s.answered ∧ entry.2 = toDate unixSeconds

def State.distinct (s : State) : Nat := (s.answered.map Prod.fst).dedup.length

structure Consistent (o : Options) (s : State) : Prop where
  nodup : (s.entries.map Prod.fst).Nodup
  size : s.entries.length ≤ max 1 o.maxEntries
  entries : ∀ entry ∈ s.entries, s.Told entry
  returned : ∀ entry ∈ s.returned, s.Told entry
  kept : s.distinct < o.maxEntries → ∀ blockNumber, s.Known blockNumber →
    (cached s.entries blockNumber).isSome = true

section remember

variable {o : Options} {s : State} {blockNumber unixSeconds : Nat}

theorem Consistent.known (h : Consistent o s) (hcached : (cached s.entries blockNumber).isSome = true) :
    s.Known blockNumber := by
  obtain ⟨timestamp, htimestamp⟩ := Option.isSome_iff_exists.mp hcached
  obtain ⟨unixSeconds, htold, -⟩ := h.entries _ (mem_of_cached htimestamp)
  exact ⟨unixSeconds, htold⟩

theorem State.Known.remember (h : s.Known blockNumber) {other unixSeconds : Nat} :
    (s.remember o other unixSeconds).Known blockNumber := by
  obtain ⟨told, htold⟩ := h
  exact ⟨told, List.mem_append_left _ htold⟩

theorem State.Told.remember {entry : Nat × Date} (h : s.Told entry) :
    (s.remember o blockNumber unixSeconds).Told entry := by
  obtain ⟨told, htold, hdate⟩ := h
  exact ⟨told, List.mem_append_left _ htold, hdate⟩

theorem told_remember :
    (s.remember o blockNumber unixSeconds).Told (blockNumber, toDate unixSeconds) :=
  ⟨unixSeconds, List.mem_append_right _ (List.mem_singleton_self _), rfl⟩

theorem length_le_distinct (h : Consistent o s) : s.entries.length ≤ s.distinct := by
  have hsub : s.entries.map Prod.fst ⊆ (s.answered.map Prod.fst).dedup := by
    intro blockNumber hmem
    obtain ⟨entry, hentry, rfl⟩ := List.mem_map.mp hmem
    obtain ⟨unixSeconds, htold, -⟩ := h.entries entry hentry
    exact List.mem_dedup.mpr (List.mem_map.mpr ⟨_, htold, rfl⟩)
  have hle := (List.subperm_of_subset h.nodup hsub).length_le
  rwa [List.length_map] at hle

theorem distinct_remember : s.distinct ≤ (s.remember o blockNumber unixSeconds).distinct := by
  have hsub : (s.answered.map Prod.fst).dedup ⊆
      ((s.remember o blockNumber unixSeconds).answered.map Prod.fst).dedup := by
    intro other hmem
    rw [List.mem_dedup] at hmem ⊢
    exact List.map_subset _ (List.subset_append_left _ _) hmem
  exact (List.subperm_of_subset (List.nodup_dedup _) hsub).length_le

theorem Consistent.remember (h : Consistent o s) :
    Consistent o (s.remember o blockNumber unixSeconds) where
  nodup := nodup_rememberEntry h.nodup
  size := length_rememberEntry h.size
  entries entry hentry := by
    obtain rfl | hold := mem_rememberEntry hentry
    · exact told_remember
    · exact (h.entries entry hold).remember
  returned entry hentry := (h.returned entry hentry).remember
  kept hroom other hother := by
    have hbefore : s.distinct < o.maxEntries := Nat.lt_of_le_of_lt distinct_remember hroom
    refine cached_rememberEntry (Nat.lt_of_le_of_lt (length_le_distinct h) hbefore) ?_
    obtain ⟨told, htold⟩ := hother
    obtain hold | hnew := List.mem_append.mp htold
    · exact .inr (h.kept hbefore other ⟨told, hold⟩)
    · exact .inl (congrArg Prod.fst (List.mem_singleton.mp hnew))

end remember

section warms

def isOut (back : List Nat) : Workers.Task Nat → Bool
  | .awaiting index _ => !back.contains index
  | _ => false

def Warm.inFlight (w : Warm) : Nat :=
  match w.phase with
  | .batching _ => 1
  | .reading _ workers back => workers.tasks.countP (isOut back)

def Warm.settled (w : Warm) : Option (Except Unit Unit) :=
  match w.phase with
  | .batching _ => none
  | .reading _ workers _ => (Workers.settled workers).map fun outcome => outcome.map fun _ => ()

variable (o : Options) (known : Nat → Prop)

structure Reading (missing single remaining : List Nat) (workers : Workers.Pool Nat Unit Unit)
    (back : List Nat) : Prop where
  among : remaining.Sublist missing
  covered : ∀ blockNumber ∈ missing, blockNumber ∈ remaining ∨ known blockNumber
  run : ∃ ls, Workers.Run remaining (fun _ => ())
    (Workers.start remaining (min o.concurrency remaining.length)) ls workers
  asked : single.Sublist workers.asked
  back : ∀ index ∈ back, ∀ blockNumber, remaining[index]? = some blockNumber → known blockNumber
  results : ∀ index blockNumber : Nat, workers.results[index]? = some (some ()) →
    remaining[index]? = some blockNumber → known blockNumber

def Phase.Sound (w : Warm) : Phase → Prop
  | .batching offset => w.batched = w.missing.take (offset + o.batchSize) ∧ w.single = []
  | .reading remaining workers back => Reading o known w.missing w.single remaining workers back

structure Warm.Planned (w : Warm) : Prop where
  nodup : w.missing.Nodup
  within : ∀ blockNumber ∈ w.missing, blockNumber ∈ w.blockNumbers
  blockNumbers : ∀ blockNumber ∈ w.blockNumbers, blockNumber ∈ w.missing ∨ known blockNumber
  batched : w.batched <+: w.missing

theorem Warm.Planned.go {known : Nat → Prop} {w : Warm} (h : w.Planned known) (phase : Phase)
    (single : List Nat) : ({ w with phase, single } : Warm).Planned known :=
  ⟨h.nodup, h.within, h.blockNumbers, h.batched⟩

structure Warm.Sound (w : Warm) : Prop extends w.Planned known where
  phase : w.phase.Sound o known w

variable {o known} {w : Warm} {missing single remaining back : List Nat}
  {workers : Workers.Pool Nat Unit Unit}

theorem Reading.mono {known' : Nat → Prop}
    (h : Reading o known missing single remaining workers back)
    (hknown : ∀ blockNumber, known blockNumber → known' blockNumber) :
    Reading o known' missing single remaining workers back where
  among := h.among
  covered blockNumber hmem := (h.covered blockNumber hmem).imp_right (hknown blockNumber)
  run := h.run
  asked := h.asked
  back index hindex blockNumber hget := hknown _ (h.back index hindex blockNumber hget)
  results index blockNumber hresult hget := hknown _ (h.results index blockNumber hresult hget)

theorem Warm.Sound.mono {known' : Nat → Prop} (h : w.Sound o known)
    (hknown : ∀ blockNumber, known blockNumber → known' blockNumber) : w.Sound o known' where
  nodup := h.nodup
  within := h.within
  blockNumbers blockNumber hmem := (h.blockNumbers blockNumber hmem).imp_right (hknown blockNumber)
  batched := h.batched
  phase := by
    have hphase := h.phase
    cases hp : w.phase with
    | batching offset =>
      rw [hp] at hphase
      exact hphase
    | reading remaining workers back =>
      rw [hp] at hphase
      exact Reading.mono hphase hknown

theorem Warm.Sound.reading (h : w.Sound o known)
    (hphase : w.phase = .reading remaining workers back) :
    Reading o known w.missing w.single remaining workers back := by
  have hsound := h.phase
  rwa [hphase] at hsound

theorem Reading.sublist (h : Reading o known missing single remaining workers back) :
    single.Sublist missing := by
  obtain ⟨ls, hrun⟩ := h.run
  have hasked : workers.asked.Sublist remaining := by
    rw [(Workers.inv_run hrun).asked]
    exact List.take_sublist _ _
  exact (h.asked.trans hasked).trans h.among

theorem Warm.Sound.single_sublist (h : w.Sound o known) : w.single.Sublist w.missing := by
  have hsound := h.phase
  cases hp : w.phase with
  | batching offset =>
    rw [hp] at hsound
    rw [hsound.2]
    exact List.nil_sublist _
  | reading remaining workers back => exact (h.reading hp).sublist

theorem Warm.Sound.inFlight (h : w.Sound o known) : w.inFlight ≤ max 1 o.concurrency := by
  unfold Warm.inFlight
  split
  · exact Nat.le_max_left ..
  · rename_i remaining workers back hp
    obtain ⟨ls, hrun⟩ := (h.reading hp).run
    have hcount := List.countP_le_length (p := isOut back) (l := workers.tasks)
    rw [Workers.run_tasks hrun] at hcount
    omega

theorem Warm.Sound.settled (h : w.Sound o known) (hwidth : 0 < o.concurrency)
    (hsettled : w.settled = some (.ok ())) : ∀ blockNumber ∈ w.blockNumbers, known blockNumber := by
  intro blockNumber hmem
  obtain hmissing | hknown := h.blockNumbers blockNumber hmem
  swap
  · exact hknown
  unfold Warm.settled at hsettled
  split at hsettled
  · cases hsettled
  rename_i remaining workers back hp
  have hreading := h.reading hp
  obtain hremaining | hknown := hreading.covered blockNumber hmissing
  swap
  · exact hknown
  obtain ⟨ls, hrun⟩ := hreading.run
  obtain ⟨outcome, houtcome, hok⟩ := Option.map_eq_some_iff.mp hsettled
  cases outcome with
  | error error => cases hok
  | ok results =>
    have hpos := List.length_pos_of_mem hremaining
    obtain ⟨-, hresults⟩ := Workers.settled_ok hrun (by omega) houtcome
    have hsame : results = workers.results := by
      unfold Workers.settled at houtcome
      split at houtcome
      · cases houtcome
      · split at houtcome <;> cases houtcome
        rfl
    obtain ⟨index, hindex, hget⟩ := List.getElem_of_mem hremaining
    have hget? : remaining[index]? = some blockNumber :=
      List.getElem?_eq_some_iff.mpr ⟨hindex, hget⟩
    refine hreading.results index blockNumber ?_ hget?
    rw [← hsame, hresults, List.getElem?_map, hget?]
    rfl

end warms

section phases

variable {o : Options} {s : State} {w : Warm}

theorem Warm.Planned.startReading (hs : Consistent o s) (h : w.Planned s.Known) :
    (w.startReading o s.entries).Sound o s.Known where
  nodup := h.nodup
  within := h.within
  blockNumbers := h.blockNumbers
  batched := h.batched
  phase := by
    refine ⟨List.filter_sublist, fun blockNumber hmem => ?_, ⟨[], .nil⟩, List.Sublist.refl _,
      fun index hindex => absurd hindex List.not_mem_nil, fun index blockNumber hresult => ?_⟩
    · cases hcached : cached s.entries blockNumber with
      | none => exact .inl (List.mem_filter.mpr ⟨hmem, by rw [hcached]; rfl⟩)
      | some timestamp => exact .inr (hs.known (by rw [hcached]; rfl))
    · rw [Workers.start, Workers.launch_results] at hresult
      cases (List.mem_replicate.mp (List.mem_of_getElem? hresult)).2

theorem Warm.Planned.nextBatch {offset : Nat} (h : w.Planned s.Known)
    (hbatched : w.batched = w.missing.take offset) (hsingle : w.single = []) :
    (w.nextBatch o offset).Sound o s.Known := by
  have htake : (w.nextBatch o offset).batched = w.missing.take (offset + o.batchSize) := by
    rw [List.take_add, ← hbatched]
    rfl
  exact ⟨⟨h.nodup, h.within, h.blockNumbers, htake ▸ List.take_prefix _ _⟩, htake, hsingle⟩

end phases

theorem Reading.step {o : Options} {known : Nat → Prop} {missing single remaining back : List Nat}
    {workers workers' : Workers.Pool Nat Unit Unit} {l : Workers.Label Unit}
    (h : Reading o known missing single remaining workers back)
    (hstep : Workers.step remaining (fun _ => ()) workers l = some workers')
    {single' : List Nat} (hasked : single'.Sublist workers'.asked)
    (hback : ∀ worker, l = .answered worker → ∀ index blockNumber : Nat,
      workers.tasks[worker]? = some (.awaiting index blockNumber) → index ∈ back) :
    Reading o known missing single' remaining workers' back where
  among := h.among
  covered := h.covered
  run := by
    obtain ⟨ls, hrun⟩ := h.run
    exact ⟨ls ++ [l], hrun.snoc hstep⟩
  asked := hasked
  back := h.back
  results index blockNumber hresult hget := by
    cases l with
    | failed worker error =>
      obtain ⟨-, rfl⟩ := Workers.step_failed hstep
      exact h.results index blockNumber hresult hget
    | answered worker =>
      obtain ⟨turn, job, htask, rfl⟩ := Workers.step_answered hstep
      simp only [Workers.take_results] at hresult
      by_cases hturn : turn = index
      · exact h.back index (hturn ▸ hback worker rfl turn job htask) blockNumber hget
      · rw [List.getElem?_set_ne hturn] at hresult
        exact h.results index blockNumber hresult hget

structure Inv (o : Options) (s : State) : Prop where
  cache : Consistent o s
  warms : ∀ w ∈ s.warms, w.Sound o s.Known

namespace Inv

variable {o : Options} {s s' : State}

theorem of_same (h : Inv o s) (hentries : s'.entries = s.entries)
    (hanswered : s'.answered = s.answered) (hreturned : ∀ entry ∈ s'.returned, s.Told entry)
    (hwarms : ∀ w ∈ s'.warms, w.Sound o s.Known) : Inv o s' := by
  have hknown : s'.Known = s.Known := by
    funext blockNumber
    unfold State.Known
    rw [hanswered]
  have htold : s'.Told = s.Told := by
    funext entry
    unfold State.Told
    rw [hanswered]
  have hdistinct : s'.distinct = s.distinct := by
    unfold State.distinct
    rw [hanswered]
  refine ⟨⟨?_, ?_, ?_, ?_, ?_⟩, ?_⟩
  · exact hentries ▸ h.cache.nodup
  · exact hentries ▸ h.cache.size
  · rw [hentries, htold]
    exact h.cache.entries
  · rw [htold]
    exact hreturned
  · rw [hdistinct, hknown, hentries]
    exact h.cache.kept
  · rw [hknown]
    exact hwarms

theorem setWarm (h : Inv o s) {call : Nat} {w : Warm} (hw : w.Sound o s.Known) :
    Inv o (s.setWarm call w) := by
  refine h.of_same rfl rfl h.cache.returned fun v hv => ?_
  obtain hv | rfl := List.mem_or_eq_of_mem_set hv
  · exact h.warms v hv
  · exact hw

theorem remember (h : Inv o s) {blockNumber unixSeconds : Nat} :
    Inv o (s.remember o blockNumber unixSeconds) :=
  ⟨h.cache.remember, fun w hw => (h.warms w hw).mono fun _ hknown => hknown.remember⟩

theorem rememberMany (h : Inv o s) {w : Warm} (hw : w.Sound o s.Known) (blocks : List (Nat × Nat)) :
    Inv o (s.rememberMany o blocks) ∧ w.Sound o (s.rememberMany o blocks).Known := by
  induction blocks generalizing s with
  | nil => exact ⟨h, hw⟩
  | cons block blocks ih => exact ih h.remember (hw.mono fun _ hknown => hknown.remember)

theorem get (h : Inv o s) (blockNumber : Nat) : Inv o (s.get blockNumber) := by
  unfold State.get
  split
  · rename_i timestamp hcached
    refine h.of_same rfl rfl (fun entry hentry => ?_) h.warms
    obtain hold | hnew := List.mem_append.mp hentry
    · exact h.cache.returned entry hold
    · rw [List.mem_singleton.mp hnew]
      exact h.cache.entries _ (mem_of_cached hcached)
  · exact h.of_same rfl rfl h.cache.returned h.warms

theorem warm (h : Inv o s) (blockNumbers : List Nat) : Inv o (s.warm o blockNumbers) := by
  have hmem (blockNumber : Nat) :
      blockNumber ∈ Table.insertMany id [] blockNumbers ↔ blockNumber ∈ blockNumbers := by
    have hmany : blockNumber ∈ Table.insertMany id [] blockNumbers ↔
        blockNumber ∈ [] ∨ blockNumber ∈ blockNumbers :=
      Table.mem_insertMany fun _ _ _ _ heq => heq
    rw [hmany, or_iff_right List.not_mem_nil]
  have hnodup : (Table.insertMany id [] blockNumbers).Nodup := by
    have hmap : ((Table.insertMany id [] blockNumbers).map id).Nodup :=
      Table.nodup_insertMany List.nodup_nil
    rwa [List.map_id] at hmap
  unfold State.warm
  dsimp only
  generalize hw : ({ blockNumbers, missing := _, batched := [], single := [], phase := _ } : Warm) = w
  have hplanned : w.Planned s.Known := by
    subst hw
    refine ⟨hnodup.sublist List.filter_sublist, fun blockNumber hmissing => ?_,
      fun blockNumber hblock => ?_, List.nil_prefix⟩
    · exact (hmem blockNumber).mp (List.mem_filter.mp hmissing).1
    · cases hcached : cached s.entries blockNumber with
      | none =>
        exact .inl (List.mem_filter.mpr ⟨(hmem blockNumber).mpr hblock, by rw [hcached]; rfl⟩)
      | some timestamp => exact .inr (h.cache.known (by rw [hcached]; rfl))
  refine h.of_same rfl rfl h.cache.returned fun v hv => ?_
  obtain hold | hnew := List.mem_append.mp hv
  · exact h.warms v hold
  · rw [List.mem_singleton.mp hnew]
    split
    · refine hplanned.nextBatch ?_ ?_ <;> subst hw <;> rfl
    · exact hplanned.startReading h.cache

theorem batchAnswered (h : Inv o s) {call offset : Nat} {w : Warm} (hw : w ∈ s.warms)
    (hphase : w.phase = .batching offset) (timestamps : List Nat) :
    Inv o (s.batchAnswered o call w offset timestamps) := by
  have hsound := h.warms w hw
  unfold State.batchAnswered
  split
  · exact h.setWarm (hsound.toPlanned.startReading h.cache)
  · obtain ⟨hbatch, hsound⟩ := h.rememberMany hsound ((w.chunk o offset).zip timestamps)
    have hasked := hsound.phase
    rw [hphase] at hasked
    refine hbatch.setWarm ?_
    split
    · exact hsound.toPlanned.nextBatch hasked.1 hasked.2
    · exact hsound.toPlanned.startReading hbatch.cache

theorem workerAnswered (h : Inv o s) {call worker index blockNumber unixSeconds : Nat} {w : Warm}
    {remaining back : List Nat} {workers : Workers.Pool Nat Unit Unit} (hw : w ∈ s.warms)
    (hphase : w.phase = .reading remaining workers back)
    (htask : workers.tasks[worker]? = some (.awaiting index blockNumber)) :
    Inv o ((s.remember o blockNumber unixSeconds).setWarm call
      { w with phase := .reading remaining workers (back ++ [index]) }) := by
  have hsound : w.Sound o (s.remember o blockNumber unixSeconds).Known :=
    (h.warms w hw).mono fun _ hknown => hknown.remember
  have hreading := hsound.reading hphase
  refine h.remember.setWarm ⟨hsound.toPlanned.go _ _, ?_⟩
  refine { hreading with back := fun turn hturn other hget => ?_ }
  obtain hold | hnew := List.mem_append.mp hturn
  · exact hreading.back turn hold other hget
  · obtain ⟨ls, hrun⟩ := hreading.run
    have hjob : remaining[index]? = some blockNumber :=
      (Workers.inv_run hrun).tasks _ (List.mem_of_getElem? htask)
    rw [List.mem_singleton.mp hnew, hjob] at hget
    obtain rfl := Option.some.inj hget
    exact ⟨unixSeconds, List.mem_append_right _ (List.mem_singleton_self _)⟩

theorem workerFailed (h : Inv o s) {call worker : Nat} {w : Warm} {remaining back : List Nat}
    {workers workers' : Workers.Pool Nat Unit Unit} (hw : w ∈ s.warms)
    (hphase : w.phase = .reading remaining workers back)
    (hstep : Workers.step remaining (fun _ => ()) workers (.failed worker ()) = some workers') :
    Inv o (s.setWarm call { w with phase := .reading remaining workers' back }) := by
  have hreading := (h.warms w hw).reading hphase
  refine h.setWarm ⟨(h.warms w hw).toPlanned.go _ _, hreading.step hstep ?_ nofun⟩
  obtain ⟨-, rfl⟩ := Workers.step_failed hstep
  exact hreading.asked

theorem workerResumed (h : Inv o s) {call worker index blockNumber : Nat} {w : Warm}
    {remaining back : List Nat} {workers workers' : Workers.Pool Nat Unit Unit} (hw : w ∈ s.warms)
    (hphase : w.phase = .reading remaining workers back)
    (htask : workers.tasks[worker]? = some (.awaiting index blockNumber)) (hback : index ∈ back)
    (hstep : Workers.step remaining (fun _ => ()) workers (.answered worker) = some workers') :
    Inv o (s.resume call w remaining workers.next workers' back) := by
  have hreading := (h.warms w hw).reading hphase
  obtain ⟨turn, job, hturn, htaken⟩ := Workers.step_answered hstep
  have hasked : workers'.asked = workers.asked ++ remaining[workers.next]?.toList := by
    rw [htaken]
    exact Workers.take_asked ..
  have hstill {single' : List Nat} (hsingle : single'.Sublist workers'.asked) :
      Reading o s.Known w.missing single' remaining workers' back := by
    refine hreading.step hstep hsingle fun _ heq other otherBlock hother => ?_
    cases heq
    rw [htask] at hother
    cases hother
    exact hback
  unfold State.resume
  dsimp only
  refine h.setWarm ⟨(h.warms w hw).toPlanned.go _ _, ?_⟩
  split
  · rename_i hhit
    have hnone : (w.single ++ []).Sublist workers'.asked := by
      rw [List.append_nil, hasked]
      exact hreading.asked.trans (List.sublist_append_left _ _)
    refine { hstill hnone with back := fun other hother otherBlock hget => ?_ }
    obtain hold | hnew := List.mem_append.mp hother
    · exact hreading.back other hold otherBlock hget
    · rw [← List.mem_singleton.mp hnew, hget] at hhit
      exact h.cache.known hhit
  · refine hstill ?_
    rw [hasked]
    exact hreading.asked.append (List.Sublist.refl _)

theorem step (h : Inv o s) {event : Event} (hstep : s.step o event = some s') : Inv o s' := by
  cases step_took hstep with
  | get blockNumber => exact h.get blockNumber
  | getAnswered unixSeconds hcall =>
    refine h.remember.of_same rfl rfl (fun entry hentry => ?_) h.remember.warms
    obtain hold | hnew := List.mem_append.mp hentry
    · exact (h.cache.returned entry hold).remember
    · rw [List.mem_singleton.mp hnew]
      exact told_remember
  | getFailed hcall => exact h.of_same rfl rfl h.cache.returned h.warms
  | warm blockNumbers => exact h.warm blockNumbers
  | batchAnswered timestamps hcall hphase =>
    exact h.batchAnswered (List.mem_of_getElem? hcall) hphase timestamps
  | batchFailed permanent hcall hphase =>
    have hplanned := (h.warms _ (List.mem_of_getElem? hcall)).toPlanned
    have hflag : Inv o { s with batchUnsupported := s.batchUnsupported || permanent } :=
      h.of_same rfl rfl h.cache.returned h.warms
    exact hflag.setWarm (Warm.Planned.startReading hflag.cache hplanned)
  | workerAnswered unixSeconds hcall hphase htask hout =>
    exact h.workerAnswered (List.mem_of_getElem? hcall) hphase htask
  | workerFailed hcall hphase htask hout hworkers =>
    exact h.workerFailed (List.mem_of_getElem? hcall) hphase hworkers
  | workerResumed hcall hphase htask hback hworkers =>
    exact h.workerResumed (List.mem_of_getElem? hcall) hphase htask hback hworkers

theorem start : Inv o .start where
  cache := {
    nodup := List.nodup_nil
    size := Nat.zero_le _
    entries := fun _ h => absurd h List.not_mem_nil
    returned := fun _ h => absurd h List.not_mem_nil
    kept := by
      rintro - blockNumber ⟨unixSeconds, h⟩
      exact absurd h List.not_mem_nil }
  warms _ h := absurd h List.not_mem_nil

theorem run {events : List Event} (h : Run o .start events s) : Inv o s :=
  Trace.invariant (I := Inv o) (fun hi hs => hi.step hs) h start

end Inv

section run

variable {o : Options} {s s' : State}

theorem rememberMany_batchUnsupported (blocks : List (Nat × Nat)) :
    (s.rememberMany o blocks).batchUnsupported = s.batchUnsupported := by
  induction blocks generalizing s with
  | nil => rfl
  | cons block blocks ih => exact ih

theorem batchUnsupported_step {event : Event} (h : s.step o event = some s') :
    s'.batchUnsupported = (s.batchUnsupported || event.permanent) := by
  cases step_took h with
  | batchFailed permanent => rfl
  | get blockNumber =>
    refine Eq.trans ?_ (Bool.or_false _).symm
    unfold State.get
    split <;> rfl
  | batchAnswered timestamps =>
    refine Eq.trans ?_ (Bool.or_false _).symm
    unfold State.batchAnswered
    split
    · rfl
    · exact rememberMany_batchUnsupported _
  | getAnswered | getFailed | warm | workerAnswered | workerFailed | workerResumed =>
    exact (Bool.or_false _).symm

/-- Batches are given up for good by a `BatchNotSupportedError` and by nothing else. -/
theorem batchUnsupported_run {events : List Event} (h : Run o s events s') :
    s'.batchUnsupported = (s.batchUnsupported || events.any Event.permanent) := by
  induction h with
  | nil => exact (Bool.or_false _).symm
  | cons hstep _ ih => rw [ih, batchUnsupported_step hstep, List.any_cons, Bool.or_assoc]

/-- However the calls of both streams interleave, whatever the endpoints answer and whichever of
their answers fail: a date is always one that an endpoint told for the block, the cache stays within
its bound and forgets nothing before it is full, no call has more requests out than its workers or
asks for a block twice, and one that ends well leaves no block unread. -/
theorem run_sound {events : List Event} (h : Run o .start events s) :
    (s.entries.map Prod.fst).Nodup ∧ s.entries.length ≤ max 1 o.maxEntries ∧
      (∀ entry ∈ s.returned, s.Told entry) ∧
      (s.distinct < o.maxEntries → ∀ blockNumber, s.Known blockNumber →
        (cached s.entries blockNumber).isSome = true) ∧
      s.batchUnsupported = events.any Event.permanent ∧
      ∀ w ∈ s.warms, w.inFlight ≤ max 1 o.concurrency ∧
        w.batched.Nodup ∧ w.single.Nodup ∧ (∀ blockNumber ∈ w.batched ++ w.single,
          blockNumber ∈ w.blockNumbers) ∧
        (0 < o.concurrency → w.settled = some (.ok ()) →
          ∀ blockNumber ∈ w.blockNumbers, s.Known blockNumber) := by
  have hinv := Inv.run h
  refine ⟨hinv.cache.nodup, hinv.cache.size, hinv.cache.returned, hinv.cache.kept,
    batchUnsupported_run h, fun w hw => ?_⟩
  have hsound := hinv.warms w hw
  refine ⟨hsound.inFlight, hsound.nodup.sublist hsound.batched.sublist,
    hsound.nodup.sublist hsound.single_sublist, fun blockNumber hmem => ?_, hsound.settled⟩
  refine hsound.within blockNumber ?_
  obtain hbatched | hsingle := List.mem_append.mp hmem
  · exact hsound.batched.subset hbatched
  · exact hsound.single_sublist.subset hsingle

def sampleOptions : Options where
  maxEntries := 4
  batchSize := 2
  minBatchSize := 3
  concurrency := 2
  readBatch := true

def sampleEvents : List Event :=
  [.warm [7, 5, 7, 9, 4], .batchAnswered 0 [70, 50], .get 4, .batchFailed 0 true, .get 5,
    .getAnswered 0 40, .workerAnswered 0 0 90, .workerAnswered 0 1 40, .workerResumed 0 1,
    .workerResumed 0 0]

theorem run_sound_sample : ∃ s, Run sampleOptions .start sampleEvents s ∧
    s.returned = [(5, toDate 50), (4, toDate 40)] ∧ (∀ entry ∈ s.returned, s.Told entry) ∧
      ∀ w ∈ s.warms, ∀ blockNumber ∈ w.blockNumbers, s.Known blockNumber := by
  have hany : (sampleEvents.foldlM (State.step sampleOptions) .start).any (fun s =>
      s.returned = [(5, toDate 50), (4, toDate 40)] &&
        s.warms.all fun w => w.settled = some (.ok ())) = true := by
    decide
  obtain ⟨s, hrun, htest⟩ := Trace.exists_of_any hany
  obtain ⟨hreturned, hsettled⟩ := (Bool.and_eq_true _ _).mp htest
  obtain ⟨-, -, htold, -, -, hwarms⟩ := run_sound hrun
  refine ⟨s, hrun, of_decide_eq_true hreturned, htold, fun w hw => ?_⟩
  exact (hwarms w hw).2.2.2.2 (by decide) (of_decide_eq_true (List.all_eq_true.mp hsettled w hw))

end run

end Stunks.Indexer.BlockTimeCache
