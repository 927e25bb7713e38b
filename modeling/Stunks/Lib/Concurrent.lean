import Mathlib.Logic.Function.Basic
import Stunks.Lib.Await
import Stunks.Lib.Trace

universe u

structure System (ι : Type) (C : Type → Type u) (ε α O E σ : Type) where
  exec : ι → {β : Type} → C β → O → σ → Except ε β × σ
  body : ι → Async C ε α
  ready : ι → σ → Bool
  start : ι → σ → σ
  finish : ι → Except ε α → σ → σ
  env : E → σ → σ
  crash : σ → σ

namespace System

structure Config (ι : Type) (C : Type → Type u) (ε α σ : Type) where
  world : σ
  tasks : ι → Option (Async C ε α)

inductive Label (ι O E : Type)
  | start (i : ι)
  | call (i : ι) (o : O)
  | finish (i : ι)
  | env (e : E)
  | crash

variable {ι : Type} {C : Type → Type u} {ε α O E σ : Type} [DecidableEq ι]

def Config.rest (s : σ) : Config ι C ε α σ := { world := s, tasks := fun _ => none }

def Config.set (c : Config ι C ε α σ) (i : ι) (task : Option (Async C ε α)) (s : σ) :
    Config ι C ε α σ :=
  { world := s, tasks := Function.update c.tasks i task }

@[simp] theorem Config.set_world (c : Config ι C ε α σ) (i : ι) (task : Option (Async C ε α))
    (s : σ) : (c.set i task s).world = s := rfl

@[simp] theorem Config.set_tasks_self (c : Config ι C ε α σ) (i : ι)
    (task : Option (Async C ε α)) (s : σ) : (c.set i task s).tasks i = task :=
  Function.update_self ..

theorem Config.set_tasks_ne (c : Config ι C ε α σ) {i j : ι} (task : Option (Async C ε α)) (s : σ)
    (h : j ≠ i) : (c.set i task s).tasks j = c.tasks j :=
  Function.update_of_ne h ..

def Config.pending (c : Config ι C ε α σ) (i : ι) (test : {β : Type} → C β → Bool) : Bool :=
  match c.tasks i with
  | some (.call k _) => test k
  | _ => true

omit [DecidableEq ι] in
theorem Config.pending_eq {c : Config ι C ε α σ} {i : ι} {test : {β : Type} → C β → Bool}
    {β : Type} {k : C β} {next : Except ε β → Async C ε α} (h : c.tasks i = some (.call k next)) :
    c.pending i test = test k := by
  simp [pending, h]

variable (S : System ι C ε α O E σ)

def step (c : Config ι C ε α σ) : Label ι O E → Option (Config ι C ε α σ)
  | .start i =>
    match c.tasks i with
    | none => if S.ready i c.world then some (c.set i (some (S.body i)) (S.start i c.world)) else none
    | some _ => none
  | .call i o =>
    match c.tasks i with
    | some (.call k next) =>
      let (answer, s) := S.exec i k o c.world
      some (c.set i (some (next answer)) s)
    | _ => none
  | .finish i =>
    match c.tasks i with
    | some (.done r) => some (c.set i none (S.finish i r c.world))
    | _ => none
  | .env e => some { c with world := S.env e c.world }
  | .crash => some { world := S.crash c.world, tasks := fun _ => none }

variable {S}

theorem step_start {c c' : Config ι C ε α σ} {i : ι} (h : S.step c (.start i) = some c') :
    c.tasks i = none ∧ S.ready i c.world = true ∧
      c' = c.set i (some (S.body i)) (S.start i c.world) := by
  simp only [step] at h
  split at h
  · rename_i htask
    obtain ⟨hready, rfl⟩ := by simpa using h
    exact ⟨htask, hready, rfl⟩
  · cases h

theorem step_call {c c' : Config ι C ε α σ} {i : ι} {o : O} (h : S.step c (.call i o) = some c') :
    ∃ (β : Type) (k : C β) (next : Except ε β → Async C ε α), c.tasks i = some (.call k next) ∧
      c' = c.set i (some (next (S.exec i k o c.world).1)) (S.exec i k o c.world).2 := by
  simp only [step] at h
  split at h
  · rename_i β k next htask
    cases h
    exact ⟨β, k, next, htask, rfl⟩
  · cases h

theorem step_finish {c c' : Config ι C ε α σ} {i : ι} (h : S.step c (.finish i) = some c') :
    ∃ r, c.tasks i = some (.done r) ∧ c' = c.set i none (S.finish i r c.world) := by
  simp only [step] at h
  split at h
  · rename_i r htask
    cases h
    exact ⟨r, htask, rfl⟩
  · cases h

variable (S)

variable (ok : Config ι C ε α σ → Label ι O E → Prop)

/-- A run all of whose steps meet the condition `ok`. -/
abbrev Run := Trace fun c l c' => ok c l ∧ S.step c l = some c'

def run [∀ c l, Decidable (ok c l)] (c : Config ι C ε α σ) :
    List (Label ι O E) → Option (Config ι C ε α σ)
  | [] => some c
  | l :: ls => if ok c l then (S.step c l).bind fun c' => run c' ls else none

variable {S ok}

theorem Run.of_run [∀ c l, Decidable (ok c l)] {c c' : Config ι C ε α σ} {ls : List (Label ι O E)}
    (h : S.run ok c ls = some c') : S.Run ok c ls c' := by
  induction ls generalizing c with
  | nil =>
    cases h
    exact .nil
  | cons l ls ih =>
    simp only [run] at h
    split at h
    · rename_i hok
      obtain ⟨d, hd, hrest⟩ := Option.bind_eq_some_iff.mp h
      exact .cons ⟨hok, hd⟩ (ih hrest)
    · cases h

theorem Run.exists_of_any [∀ c l, Decidable (ok c l)] {c : Config ι C ε α σ}
    {ls : List (Label ι O E)} {test : Config ι C ε α σ → Bool}
    (h : (S.run ok c ls).any test = true) : ∃ c', S.Run ok c ls c' ∧ test c' = true := by
  obtain ⟨c', hc', htest⟩ := (Option.any_eq_true ..).mp h
  exact ⟨c', .of_run hc', htest⟩

variable (S ok)

/-- A proof that every slot keeps its promises: what holds of a slot at rest and at its end, and
that no step of one slot, of the environment or of a crash breaks what another relies on. -/
structure Outline where
  protocol : ι → Protocol C ε O σ
  idle : ι → σ → Prop
  post : ι → Except ε α → σ → Prop
  exec : ∀ i {β} (k : C β) o s, (protocol i).exec k o s = S.exec i k o s
  allow : ∀ {c i o β} {k : C β} {next}, ok c (.call i o) → c.tasks i = some (.call k next) →
    (protocol i).allow k o c.world
  peer : ∀ {i j s t}, j ≠ i → (protocol i).guar s t → (protocol j).rely s t
  rest : ∀ {i s t}, idle i s → (protocol i).rely s t → idle i t
  start : ∀ {c i}, ok c (.start i) → S.ready i c.world = true → idle i c.world →
    (protocol i).Safe (post i) (S.body i) (S.start i c.world) ∧
      ∀ j, j ≠ i → (protocol j).rely c.world (S.start i c.world)
  finish : ∀ {i r s}, post i r s →
    idle i (S.finish i r s) ∧ ∀ j, j ≠ i → (protocol j).rely s (S.finish i r s)
  env : ∀ {c e}, ok c (.env e) → ∀ j, (protocol j).rely c.world (S.env e c.world)
  crash : ∀ {c}, ok c .crash →
    (∀ i, (c.tasks i = none → idle i c.world) ∧ (c.tasks i ≠ none → (protocol i).keep c.world)) →
    ∀ i, idle i (S.crash c.world)

variable {S ok}

namespace Outline

variable (P : S.Outline ok)

def Holds (i : ι) (s : σ) : Option (Async C ε α) → Prop
  | none => P.idle i s
  | some p => (P.protocol i).Safe (P.post i) p s

def Inv (c : Config ι C ε α σ) : Prop := ∀ i, P.Holds i c.world (c.tasks i)

omit [DecidableEq ι] in
theorem holds_rely {i : ι} {s t : σ} {task : Option (Async C ε α)} (h : P.Holds i s task)
    (hst : (P.protocol i).rely s t) : P.Holds i t task := by
  cases task with
  | none => exact P.rest h hst
  | some p => exact Protocol.Safe.rely h hst

theorem inv_set {c : Config ι C ε α σ} {i : ι} {task : Option (Async C ε α)} {s : σ}
    (h : P.Inv c) (hi : P.Holds i s task) (hj : ∀ j, j ≠ i → (P.protocol j).rely c.world s) :
    P.Inv (c.set i task s) := by
  intro j
  by_cases hji : j = i
  · subst hji
    simpa using hi
  · rw [Config.set_tasks_ne c task s hji]
    exact P.holds_rely (h j) (hj j hji)

theorem call_step {c c' : Config ι C ε α σ} {i : ι} {o : O} (h : P.Inv c) (hok : ok c (.call i o))
    (hstep : S.step c (.call i o) = some c') :
    (P.protocol i).guar c.world c'.world ∧ P.Inv c' := by
  obtain ⟨β, k, next, htask, rfl⟩ := step_call hstep
  have hsafe : (P.protocol i).Safe (P.post i) (.call k next) c.world := by
    simpa [htask, Holds] using h i
  obtain ⟨-, hcalls⟩ := hsafe c.world ((P.protocol i).refl _)
  obtain ⟨hguar, hnext⟩ := hcalls o (P.allow hok htask)
  rw [P.exec] at hguar hnext
  exact ⟨hguar, P.inv_set h hnext fun j hji => P.peer hji hguar⟩

theorem inv_step {c c' : Config ι C ε α σ} {l : Label ι O E} (h : P.Inv c) (hok : ok c l)
    (hstep : S.step c l = some c') : P.Inv c' := by
  cases l with
  | start i =>
    obtain ⟨htask, hready, rfl⟩ := step_start hstep
    have hidle : P.idle i c.world := by simpa [htask, Holds] using h i
    obtain ⟨hsafe, hpeers⟩ := P.start hok hready hidle
    exact P.inv_set h hsafe hpeers
  | call i o => exact (P.call_step h hok hstep).2
  | finish i =>
    obtain ⟨r, htask, rfl⟩ := step_finish hstep
    have hsafe : (P.protocol i).Safe (P.post i) (.done r) c.world := by
      simpa [htask, Holds] using h i
    obtain ⟨hidle, hpeers⟩ := P.finish hsafe.result
    exact P.inv_set h hidle hpeers
  | env e =>
    cases hstep
    exact fun j => P.holds_rely (h j) (P.env hok j)
  | crash =>
    cases hstep
    refine P.crash hok fun i => ⟨fun htask => ?_, fun htask => ?_⟩
    · simpa [htask, Holds] using h i
    · obtain ⟨p, hp⟩ := Option.ne_none_iff_exists'.mp htask
      have hsafe : (P.protocol i).Safe (P.post i) p c.world := by simpa [hp, Holds] using h i
      exact hsafe.keep

theorem inv_run {c c' : Config ι C ε α σ} {ls : List (Label ι O E)} (h : P.Inv c)
    (hrun : S.Run ok c ls c') : P.Inv c' :=
  Trace.invariant (I := P.Inv) (fun hi hs => P.inv_step hi hs.1 hs.2) hrun h

theorem returned {c c' : Config ι C ε α σ} {ls : List (Label ι O E)} {i : ι} {r : Except ε α}
    (h : P.Inv c) (hrun : S.Run ok c ls c') (htask : c'.tasks i = some (.done r)) :
    P.post i r c'.world := by
  have hsafe : (P.protocol i).Safe (P.post i) (.done r) c'.world := by
    simpa [htask, Holds] using P.inv_run h hrun i
  exact hsafe.result

omit [DecidableEq ι] in
theorem keep_of_inv {c : Config ι C ε α σ} {i : ι} (h : P.Inv c)
    (hidle : ∀ s, P.idle i s → (P.protocol i).keep s) : (P.protocol i).keep c.world := by
  have hi := h i
  cases htask : c.tasks i with
  | none =>
    rw [htask] at hi
    exact hidle _ hi
  | some p =>
    rw [htask] at hi
    exact Protocol.Safe.keep hi

omit [DecidableEq ι] in
theorem inv_rest {s : σ} (h : ∀ i, P.idle i s) : P.Inv (Config.rest s) := h

end Outline

end System
