import Mathlib.Tactic.Push
import Stunks.Lib.Trace

namespace Workers

inductive Task (J : Type)
  | awaiting (index : Nat) (job : J)
  | returned
  | stopped

def Task.isAwaiting {J : Type} : Task J → Bool
  | .awaiting _ _ => true
  | _ => false

def Task.isReturned {J : Type} : Task J → Bool
  | .returned => true
  | _ => false

structure Pool (J R ε : Type) where
  next : Nat
  tasks : List (Task J)
  results : List (Option R)
  rejected : Option ε
  asked : List J

inductive Label (ε : Type)
  | answered (worker : Nat)
  | failed (worker : Nat) (error : ε)

variable {J R ε : Type}

def Label.isAnswered : Label ε → Bool
  | .answered _ => true
  | .failed _ _ => false

section defs

variable (jobs : List J)

/-- A worker takes the next index, and stops when there is no job at it. -/
def take (p : Pool J R ε) : Task J × Pool J R ε :=
  let index := p.next
  let p := { p with next := index + 1 }
  match jobs[index]? with
  | none => (.returned, p)
  | some job => (.awaiting index job, { p with asked := p.asked ++ [job] })

def launch : Nat → Pool J R ε → Pool J R ε
  | 0, p => p
  | n + 1, p =>
    let (task, p) := take jobs p
    launch n { p with tasks := p.tasks ++ [task] }

def start (width : Nat) : Pool J R ε :=
  launch jobs width {
    next := 0, tasks := [], results := List.replicate jobs.length none
    rejected := none, asked := [] }

variable (serve : J → R)

def step (p : Pool J R ε) : Label ε → Option (Pool J R ε)
  | .answered worker =>
    match p.tasks[worker]? with
    | some (.awaiting index job) =>
      let (task, p) := take jobs { p with results := p.results.set index (some (serve job)) }
      some { p with tasks := p.tasks.set worker task }
    | _ => none
  | .failed worker error =>
    match p.tasks[worker]? with
    | some (.awaiting _ _) =>
      some { p with tasks := p.tasks.set worker .stopped, rejected := p.rejected.or (some error) }
    | _ => none

def settled (p : Pool J R ε) : Option (Except ε (List (Option R))) :=
  match p.rejected with
  | some error => some (.error error)
  | none => if p.tasks.all Task.isReturned then some (.ok p.results) else none

abbrev Run := Trace fun (p : Pool J R ε) l p' => step jobs serve p l = some p'

end defs

section take

variable (jobs : List J) (p : Pool J R ε)

theorem take_eq :
    (∃ job, jobs[p.next]? = some job ∧ take jobs p =
      (.awaiting p.next job, { p with next := p.next + 1, asked := p.asked ++ [job] })) ∨
    jobs[p.next]? = none ∧ take jobs p = (.returned, { p with next := p.next + 1 }) := by
  unfold take
  cases h : jobs[p.next]? with
  | some job =>
    refine .inl ⟨job, rfl, ?_⟩
    simp only [h]
  | none =>
    refine .inr ⟨rfl, ?_⟩
    simp only [h]

theorem take_tasks : (take jobs p).2.tasks = p.tasks := by
  rcases take_eq jobs p with ⟨job, -, h⟩ | ⟨-, h⟩ <;> rw [h]

theorem take_results : (take jobs p).2.results = p.results := by
  rcases take_eq jobs p with ⟨job, -, h⟩ | ⟨-, h⟩ <;> rw [h]

theorem take_rejected : (take jobs p).2.rejected = p.rejected := by
  rcases take_eq jobs p with ⟨job, -, h⟩ | ⟨-, h⟩ <;> rw [h]

theorem take_next : (take jobs p).2.next = p.next + 1 := by
  rcases take_eq jobs p with ⟨job, -, h⟩ | ⟨-, h⟩ <;> rw [h]

theorem take_asked :
    (take jobs p).2.asked = p.asked ++ jobs[p.next]?.toList := by
  rcases take_eq jobs p with ⟨job, hjob, h⟩ | ⟨hnone, h⟩
  · rw [h, hjob]
    rfl
  · rw [h, hnone]
    exact (List.append_nil _).symm

theorem launch_succ (n : Nat) :
    launch jobs (n + 1) p = launch jobs n
      { (take jobs p).2 with tasks := (take jobs p).2.tasks ++ [(take jobs p).1] } := rfl

end take

variable {jobs : List J} {serve : J → R}

theorem step_answered {p p' : Pool J R ε} {worker : Nat}
    (h : step jobs serve p (.answered worker) = some p') :
    ∃ index job, p.tasks[worker]? = some (Task.awaiting index job) ∧
      let taken := take jobs { p with results := p.results.set index (some (serve job)) }
      p' = { taken.2 with tasks := taken.2.tasks.set worker taken.1 } := by
  simp only [step] at h
  split at h
  · rename_i index job htask
    exact ⟨index, job, htask, (Option.some.inj h).symm⟩
  · cases h

theorem step_failed {p p' : Pool J R ε} {worker : Nat} {error : ε}
    (h : step jobs serve p (.failed worker error) = some p') :
    (∃ index job, p.tasks[worker]? = some (Task.awaiting index job)) ∧
      p' = { p with tasks := p.tasks.set worker .stopped, rejected := p.rejected.or (some error) } := by
  simp only [step] at h
  split at h
  · rename_i index job htask
    exact ⟨⟨index, job, htask⟩, (Option.some.inj h).symm⟩
  · cases h

def Task.Sound (jobs : List J) (p : Pool J R ε) : Task J → Prop
  | .awaiting index job => jobs[index]? = some job
  | .returned => jobs.length ≤ p.next
  | .stopped => p.rejected.isSome = true

structure Inv (jobs : List J) (serve : J → R) (p : Pool J R ε) : Prop where
  length : p.results.length = jobs.length
  asked : p.asked = jobs.take p.next
  tasks : ∀ task ∈ p.tasks, task.Sound jobs p
  filled : ∀ index job, index < p.next → jobs[index]? = some job →
    p.results[index]? = some (some (serve job)) ∨
      (∃ worker : Nat, p.tasks[worker]? = some (Task.awaiting index job)) ∨ p.rejected.isSome = true

theorem take_awaiting {p : Pool J R ε} {job : J} (h : jobs[p.next]? = some job) :
    (take jobs p).1 = .awaiting p.next job := by
  unfold take
  simp only [h]

theorem Task.Sound.taken {p : Pool J R ε} {task : Task J} (h : task.Sound jobs p) {p' : Pool J R ε}
    (hnext : p.next ≤ p'.next) (hrejected : p.rejected.isSome = true → p'.rejected.isSome = true) :
    task.Sound jobs p' := by
  cases task with
  | awaiting index job => exact h
  | returned => exact Nat.le_trans h hnext
  | stopped => exact hrejected h

theorem take_sound {p p' : Pool J R ε} (hnext : p.next + 1 ≤ p'.next) :
    (take jobs p).1.Sound jobs p' := by
  rcases take_eq jobs p with ⟨job, hjob, h⟩ | ⟨hnone, h⟩
  · rw [h]
    exact hjob
  · rw [h]
    have := List.getElem?_eq_none_iff.mp hnone
    exact Nat.le_trans this (by omega)

theorem Inv.taken {p : Pool J R ε} (tasks : List (Task J)) (worker : Nat)
    (hlength : p.results.length = jobs.length) (hasked : p.asked = jobs.take p.next)
    (htasks : ∀ task ∈ tasks, task = (take jobs p).1 ∨ task.Sound jobs p)
    (hslot : tasks[worker]? = some (take jobs p).1)
    (hfilled : ∀ index job, index < p.next → jobs[index]? = some job →
      p.results[index]? = some (some (serve job)) ∨
        (∃ other : Nat, tasks[other]? = some (Task.awaiting index job)) ∨
          p.rejected.isSome = true) :
    Inv jobs serve { (take jobs p).2 with tasks } := by
  have hnext := take_next jobs p
  refine ⟨?_, ?_, ?_, ?_⟩
  · rw [← hlength, ← take_results jobs p]
  · change (take jobs p).2.asked = jobs.take (take jobs p).2.next
    rw [take_asked, hasked, hnext, List.take_add_one]
  · intro task htask
    rcases htasks task htask with rfl | hsound
    · exact take_sound (Nat.le_of_eq hnext.symm)
    · refine hsound.taken (by simp only [hnext]; omega) ?_
      simp only [take_rejected]
      exact id
  · intro index job hindex hjob
    simp only [hnext] at hindex
    simp only [take_results, take_rejected]
    rcases Nat.lt_succ_iff_lt_or_eq.mp hindex with hlt | rfl
    · exact hfilled index job hlt hjob
    · exact .inr (.inl ⟨worker, hslot.trans (congrArg some (take_awaiting hjob))⟩)

theorem Inv.launch {p : Pool J R ε} (h : Inv jobs serve p) (n : Nat) :
    Inv jobs serve (launch jobs n p) := by
  induction n generalizing p with
  | zero => exact h
  | succ n ih =>
    rw [launch_succ, take_tasks]
    refine ih (Inv.taken _ p.tasks.length h.length h.asked ?_ (by simp) ?_)
    · intro task htask
      rcases List.mem_append.mp htask with hold | hnew
      · exact .inr (h.tasks task hold)
      · exact .inl (List.mem_singleton.mp hnew)
    · intro index job hindex hjob
      rcases h.filled index job hindex hjob with hdone | ⟨worker, hbusy⟩ | hrejected
      · exact .inl hdone
      · refine .inr (.inl ⟨worker, ?_⟩)
        rw [List.getElem?_append_left (List.getElem?_eq_some_iff.mp hbusy).choose]
        exact hbusy
      · exact .inr (.inr hrejected)

theorem inv_start (width : Nat) : Inv jobs serve (start jobs width : Pool J R ε) := by
  refine Inv.launch ⟨?_, rfl, ?_, ?_⟩ width
  · simp
  · intro task htask
    cases htask
  · intro index job hindex
    cases hindex

theorem mem_set {tasks : List (Task J)} {worker : Nat} {task task' : Task J}
    (h : task' ∈ tasks.set worker task) : task' = task ∨ task' ∈ tasks :=
  (List.mem_or_eq_of_mem_set h).symm

theorem Inv.answered {p p' : Pool J R ε} (h : Inv jobs serve p) {worker : Nat}
    (hstep : step jobs serve p (.answered worker) = some p') : Inv jobs serve p' := by
  obtain ⟨index, job, htask, rfl⟩ := step_answered hstep
  have hworker := (List.getElem?_eq_some_iff.mp htask).choose
  have hsound : (Task.awaiting index job).Sound jobs p :=
    h.tasks _ (List.mem_of_getElem? htask)
  have hjob : jobs[index]? = some job := hsound
  have hindex : index < p.results.length := by
    rw [h.length]
    exact (List.getElem?_eq_some_iff.mp hjob).choose
  rw [take_tasks]
  refine Inv.taken _ worker ?_ h.asked ?_ (List.getElem?_set_self hworker) ?_
  · rw [← h.length]
    exact List.length_set
  · intro task hmem
    exact (mem_set hmem).imp_right (h.tasks task)
  · intro other otherJob hother hotherJob
    simp only [List.getElem?_set]
    by_cases hsame : index = other
    · -- the job that was answered
      subst hsame
      rw [hjob] at hotherJob
      cases hotherJob
      simp [hindex]
    · rw [if_neg hsame]
      rcases h.filled other otherJob hother hotherJob with hdone | ⟨busy, hbusy⟩ | hrejected
      · exact .inl hdone
      · refine .inr (.inl ⟨busy, ?_⟩)
        rw [if_neg, hbusy]
        rintro rfl
        rw [htask] at hbusy
        cases hbusy
        exact hsame rfl
      · exact .inr (.inr hrejected)

theorem Inv.failed {p p' : Pool J R ε} (h : Inv jobs serve p) {worker : Nat} {error : ε}
    (hstep : step jobs serve p (.failed worker error) = some p') : Inv jobs serve p' := by
  obtain ⟨-, rfl⟩ := step_failed hstep
  have hrejected : (p.rejected.or (some error)).isSome = true := by simp
  refine ⟨h.length, h.asked, ?_, fun _ _ _ _ => .inr (.inr hrejected)⟩
  intro task hmem
  rcases mem_set hmem with rfl | hold
  · exact hrejected
  · exact (h.tasks task hold).taken (Nat.le_refl _) fun _ => hrejected

theorem Inv.step {p p' : Pool J R ε} (h : Inv jobs serve p) {l : Label ε}
    (hstep : step jobs serve p l = some p') : Inv jobs serve p' := by
  cases l with
  | answered worker => exact h.answered hstep
  | failed worker error => exact h.failed hstep

theorem inv_run {width : Nat} {ls : List (Label ε)} {p : Pool J R ε}
    (h : Run jobs serve (start jobs width) ls p) : Inv jobs serve p :=
  Trace.invariant (I := Inv jobs serve) (fun hi hs => hi.step hs) h (inv_start width)

def outstanding (jobs : List J) (p : Pool J R ε) : Nat :=
  jobs.length - p.next + p.tasks.countP Task.isAwaiting

theorem take_outstanding (jobs : List J) (p : Pool J R ε) :
    jobs.length - (take jobs p).2.next + (if (take jobs p).1.isAwaiting then 1 else 0) =
      jobs.length - p.next := by
  rcases take_eq jobs p with ⟨job, hjob, h⟩ | ⟨hnone, h⟩
  · have hlt := (List.getElem?_eq_some_iff.mp hjob).choose
    simp only [h, Task.isAwaiting, if_true]
    omega
  · have hle := List.getElem?_eq_none_iff.mp hnone
    simp only [h, Task.isAwaiting, Bool.false_eq_true, if_false]
    omega

theorem launch_outstanding (p : Pool J R ε) (n : Nat) :
    outstanding jobs (launch jobs n p) = outstanding jobs p := by
  induction n generalizing p with
  | zero => rfl
  | succ n ih =>
    have htake := take_outstanding jobs p
    rw [launch_succ, ih]
    unfold outstanding
    simp only [take_tasks, List.countP_append, List.countP_singleton]
    omega

theorem outstanding_start (width : Nat) :
    outstanding jobs (start jobs width : Pool J R ε) = jobs.length :=
  launch_outstanding _ width

theorem countP_set {tasks : List (Task J)} {worker index : Nat} {job : J} (task : Task J)
    (h : tasks[worker]? = some (.awaiting index job)) :
    (tasks.set worker task).countP Task.isAwaiting + 1 =
      tasks.countP Task.isAwaiting + if task.isAwaiting then 1 else 0 := by
  obtain ⟨hworker, htask⟩ := List.getElem?_eq_some_iff.mp h
  have hpos : 0 < tasks.countP Task.isAwaiting :=
    List.countP_pos_iff.mpr ⟨_, List.mem_of_getElem? h, rfl⟩
  rw [List.countP_set hworker, htask]
  simp only [Task.isAwaiting, if_true]
  omega

theorem step_outstanding {p p' : Pool J R ε} {l : Label ε}
    (hstep : step jobs serve p l = some p') : outstanding jobs p' + 1 = outstanding jobs p := by
  cases l with
  | answered worker =>
    obtain ⟨index, job, htask, rfl⟩ := step_answered hstep
    have htake := take_outstanding jobs
      { p with results := p.results.set index (some (serve job)) }
    have hset := countP_set (take jobs
      { p with results := p.results.set index (some (serve job)) }).1 htask
    unfold outstanding
    simp only [take_tasks] at htake hset ⊢
    omega
  | failed worker error =>
    obtain ⟨⟨index, job, htask⟩, rfl⟩ := step_failed hstep
    have hset := countP_set .stopped htask
    unfold outstanding
    simp only [Task.isAwaiting, Bool.false_eq_true, if_false] at hset ⊢
    omega

theorem launch_tasks (p : Pool J R ε) (n : Nat) :
    (launch jobs n p).tasks.length = p.tasks.length + n := by
  induction n generalizing p with
  | zero => rfl
  | succ n ih =>
    rw [launch_succ, ih]
    simp only [take_tasks, List.length_append, List.length_singleton]
    omega

theorem step_tasks {p p' : Pool J R ε} {l : Label ε} (hstep : step jobs serve p l = some p') :
    p'.tasks.length = p.tasks.length := by
  cases l with
  | answered worker =>
    obtain ⟨index, job, -, rfl⟩ := step_answered hstep
    simp only [List.length_set, take_tasks]
  | failed worker error =>
    obtain ⟨-, rfl⟩ := step_failed hstep
    exact List.length_set

theorem trace_outstanding {p p' : Pool J R ε} {ls : List (Label ε)}
    (h : Run jobs serve p ls p') : ls.length + outstanding jobs p' = outstanding jobs p := by
  induction h with
  | nil => exact Nat.zero_add _
  | cons hs _ ih =>
    have := step_outstanding hs
    rw [List.length_cons]
    omega

section Run

variable {width : Nat} {ls : List (Label ε)} {p : Pool J R ε}

theorem run_outstanding (h : Run jobs serve (start jobs width) ls p) :
    ls.length + outstanding jobs p = jobs.length := by
  rw [trace_outstanding h, outstanding_start]

theorem run_tasks (h : Run jobs serve (start jobs width) ls p) : p.tasks.length = width := by
  have hstart : (start jobs width : Pool J R ε).tasks.length = width :=
    (launch_tasks _ width).trans (Nat.zero_add _)
  exact Trace.invariant (I := fun p => p.tasks.length = width)
    (fun hi hs => (step_tasks hs).trans hi) h hstart

theorem launch_rejected (p : Pool J R ε) (n : Nat) :
    (launch jobs n p).rejected = p.rejected := by
  induction n generalizing p with
  | zero => rfl
  | succ n ih => exact (ih _).trans (take_rejected jobs p)

theorem launch_results (p : Pool J R ε) (n : Nat) :
    (launch jobs n p).results = p.results := by
  induction n generalizing p with
  | zero => rfl
  | succ n ih => exact (ih _).trans (take_results jobs p)

theorem run_rejected (h : Run jobs serve (start jobs width) ls p)
    (hanswered : ∀ l ∈ ls, l.isAnswered = true) : p.rejected = none := by
  have hstart : (start jobs width : Pool J R ε).rejected = none := launch_rejected _ width
  generalize start jobs width = p₀ at h hstart
  induction h with
  | nil => exact hstart
  | @cons p₀ l p₁ ls p₂ hs _ ih =>
    refine ih (fun l hl => hanswered l (List.mem_cons_of_mem _ hl)) ?_
    cases l with
    | answered worker =>
      obtain ⟨index, job, -, rfl⟩ := step_answered hs
      exact (take_rejected ..).trans hstart
    | failed worker error => cases hanswered _ (List.mem_cons_self ..)

/-- Once all workers are back, every job has been sent out once, in order, and has its
result. -/
theorem settled_ok (h : Run jobs serve (start jobs width) ls p) (hwidth : 0 < width)
    {results : List (Option R)} (hsettled : settled p = some (.ok results)) :
    p.asked = jobs ∧ results = jobs.map fun job => some (serve job) := by
  have hinv := inv_run h
  have hlength := run_tasks h
  unfold settled at hsettled
  cases hrejected : p.rejected with
  | some error =>
    rw [hrejected] at hsettled
    cases hsettled
  | none =>
    simp only [hrejected] at hsettled
    split at hsettled
    · rename_i hall
      obtain rfl : p.results = results := by cases hsettled; rfl
      have hreturned := List.all_eq_true.mp hall
      obtain ⟨task, htask⟩ := List.exists_mem_of_length_pos (by omega : 0 < p.tasks.length)
      have hnext : jobs.length ≤ p.next := by
        have hsound := hinv.tasks task htask
        have hback := hreturned task htask
        cases task with
        | awaiting index job => cases hback
        | returned => exact hsound
        | stopped => cases hback
      refine ⟨hinv.asked.trans (List.take_of_length_le hnext), ?_⟩
      apply List.ext_getElem?
      intro index
      rw [List.getElem?_map]
      cases hjob : jobs[index]? with
      | none =>
        have := List.getElem?_eq_none_iff.mp hjob
        exact List.getElem?_eq_none_iff.mpr (by rw [hinv.length]; exact this)
      | some job =>
        have hindex := (List.getElem?_eq_some_iff.mp hjob).choose
        rcases hinv.filled index job (by omega) hjob with hdone | ⟨worker, hbusy⟩ | hsome
        · exact hdone
        · cases hreturned _ (List.mem_of_getElem? hbusy)
        · rw [hrejected] at hsome
          cases hsome
    · cases hsettled

theorem answers_or_settled (h : Run jobs serve (start jobs width) ls p)
    (hanswered : ∀ l ∈ ls, l.isAnswered = true) :
    (∃ worker p', step jobs serve p (.answered worker) = some p') ∨
      ∃ results, settled p = some (.ok results) := by
  have hinv := inv_run h
  have hrejected := run_rejected h hanswered
  by_cases hall : p.tasks.all Task.isReturned = true
  · refine .inr ⟨p.results, ?_⟩
    unfold settled
    simp only [hrejected, hall, if_true]
  · rw [List.all_eq_true] at hall
    push Not at hall
    obtain ⟨task, htask, hback⟩ := hall
    obtain ⟨worker, hworker, hget⟩ := List.getElem_of_mem htask
    have hget? : p.tasks[worker]? = some task := List.getElem?_eq_some_iff.mpr ⟨hworker, hget⟩
    cases task with
    | awaiting index job =>
      refine .inl ⟨worker, ?_⟩
      simp only [step, hget?]
      exact ⟨_, rfl⟩
    | returned => exact absurd rfl hback
    | stopped =>
      have hsome : p.rejected.isSome = true := hinv.tasks _ htask
      rw [hrejected] at hsome
      cases hsome

end Run

end Workers
