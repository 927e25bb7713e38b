
universe u v

/-- A program is its result, or a call it awaits and how it goes on with the answer. -/
inductive Async (C : Type → Type u) (ε α : Type) : Type (max 1 u)
  | done (result : Except ε α)
  | call {β : Type} (c : C β) (next : Except ε β → Async C ε α)

namespace Async

variable {C : Type → Type u} {ε α β : Type}

def bind : Async C ε α → (α → Async C ε β) → Async C ε β
  | done (.ok a), f => f a
  | done (.error e), _ => done (.error e)
  | call c next, f => call c fun r => (next r).bind f

instance : Monad (Async C ε) where
  pure a := done (.ok a)
  bind := bind

def throw (e : ε) : Async C ε α := done (.error e)

def await (c : C α) : Async C ε α := call c done

/-- The outcome of a program as a value, for a `catch` to look at. -/
def attempt : Async C ε α → Async C ε (Except ε α)
  | done r => done (.ok r)
  | call c next => call c fun r => (next r).attempt

def lift {D : Type → Type u} (f : {β : Type} → C β → D β) : Async C ε α → Async D ε α
  | done r => done r
  | call c next => call (f c) fun r => (next r).lift f

def Only (ok : {β : Type} → C β → Prop) : Async C ε α → Prop
  | done _ => True
  | call c next => ok c ∧ ∀ r, (next r).Only ok

def Yields (post : α → Prop) : Async C ε α → Prop
  | done (.ok a) => post a
  | done (.error _) => True
  | call _ next => ∀ r, (next r).Yields post

/-- A program that has made no more than so many calls when it ends, whatever they answer. -/
def AtMost : Nat → Async C ε α → Prop
  | _, done _ => True
  | 0, call _ _ => False
  | n + 1, call _ next => ∀ r, (next r).AtMost n

def drive {O : Type} {σ : Type v} (exec : {β : Type} → C β → O → σ → Except ε β × σ) :
    Async C ε α → List O → σ → Option (Except ε α) × σ
  | done r, _, s => (some r, s)
  | call _ _, [], s => (none, s)
  | call c next, o :: os, s =>
    let (answer, s) := exec c o s
    drive exec (next answer) os s

def run {σ : Type} (exec : {β : Type} → C β → σ → Except ε β × σ) :
    Async C ε α → σ → Except ε α × σ
  | done r, s => (r, s)
  | call c next, s => run exec (next (exec c s).1) (exec c s).2

section run

variable {σ : Type} {exec : {β : Type} → C β → σ → Except ε β × σ}

@[simp] theorem run_pure (a : α) (s : σ) : (pure a : Async C ε α).run exec s = (.ok a, s) := rfl

@[simp] theorem run_await (c : C α) (s : σ) : (await c).run exec s = exec c s := rfl

theorem run_bind (p : Async C ε β) (q : β → Async C ε α) (s : σ) :
    (p >>= q).run exec s = match p.run exec s with
      | (.ok b, t) => (q b).run exec t
      | (.error e, t) => (.error e, t) := by
  change (p.bind q).run exec s = _
  induction p generalizing s with
  | done r => cases r <;> rfl
  | call c next ih => exact ih _ _

theorem run_bind_ok {p : Async C ε β} {q : β → Async C ε α} {b : β} {s t : σ}
    (h : p.run exec s = (.ok b, t)) : (p >>= q).run exec s = (q b).run exec t := by
  rw [run_bind, h]

theorem run_bind_error {p : Async C ε β} {q : β → Async C ε α} {e : ε} {s t : σ}
    (h : p.run exec s = (.error e, t)) : (p >>= q).run exec s = (.error e, t) := by
  rw [run_bind, h]

theorem run_attempt (p : Async C ε α) (s : σ) :
    p.attempt.run exec s = (.ok (p.run exec s).1, (p.run exec s).2) := by
  induction p generalizing s with
  | done r => rfl
  | call c next ih => exact ih _ _

end run

section calls

variable {ok : {β : Type} → C β → Prop} {mid : β → Prop} {post : α → Prop}

theorem Only.bind {p : Async C ε α} {q : α → Async C ε β} (hp : p.Only ok)
    (hq : ∀ a, (q a).Only ok) : (p >>= q).Only ok := by
  change (p.bind q).Only ok
  induction p with
  | done r =>
    cases r with
    | ok a => exact hq a
    | error _ => trivial
  | call c next ih => exact ⟨hp.1, fun r => ih r (hp.2 r)⟩

theorem Only.attempt {p : Async C ε α} (hp : p.Only ok) : p.attempt.Only ok := by
  induction p with
  | done _ => trivial
  | call c next ih => exact ⟨hp.1, fun r => ih r (hp.2 r)⟩

theorem Yields.bind {p : Async C ε β} {q : β → Async C ε α} (hp : p.Yields mid)
    (hq : ∀ b, mid b → (q b).Yields post) : (p >>= q).Yields post := by
  change (p.bind q).Yields post
  induction p with
  | done r =>
    cases r with
    | ok b => exact hq b hp
    | error _ => trivial
  | call c next ih => exact fun r => ih r (hp r)

theorem Yields.await_bind {c : C β} {q : β → Async C ε α} (hq : ∀ b, (q b).Yields post) :
    (await c >>= q).Yields post
  | .ok b => hq b
  | .error _ => trivial

theorem Yields.imp {p : Async C ε α} {post' : α → Prop} (hp : p.Yields post)
    (h : ∀ a, post a → post' a) : p.Yields post' := by
  induction p with
  | done r =>
    cases r with
    | ok a => exact h a hp
    | error _ => trivial
  | call c next ih => exact fun r => ih r (hp r)

end calls

section count

variable {n m : Nat}

theorem AtMost.pure (n : Nat) (a : α) : (pure a : Async C ε α).AtMost n := by
  cases n <;> trivial

theorem AtMost.throw (n : Nat) (e : ε) : (throw e : Async C ε α).AtMost n := by
  cases n <;> trivial

theorem AtMost.await (c : C α) : (await c : Async C ε α).AtMost 1 := fun _ => trivial

theorem AtMost.mono {p : Async C ε α} (h : p.AtMost n) (hnm : n ≤ m) : p.AtMost m := by
  induction p generalizing n m with
  | done _ => cases m <;> trivial
  | call c next ih =>
    cases n with
    | zero => cases h
    | succ n =>
      cases m with
      | zero => cases hnm
      | succ m => exact fun r => ih r (h r) (Nat.le_of_succ_le_succ hnm)

theorem AtMost.bind {p : Async C ε α} {q : α → Async C ε β} (hp : p.AtMost n)
    (hq : ∀ a, (q a).AtMost m) : (p >>= q).AtMost (n + m) := by
  change (p.bind q).AtMost (n + m)
  induction p generalizing n with
  | done r =>
    cases r with
    | ok a => exact (hq a).mono (Nat.le_add_left m n)
    | error e => exact .throw _ e
  | call c next ih =>
    cases n with
    | zero => cases hp
    | succ n =>
      rw [Nat.add_right_comm]
      exact fun r => ih r (hp r)

theorem AtMost.attempt {p : Async C ε α} (h : p.AtMost n) : p.attempt.AtMost n := by
  induction p generalizing n with
  | done _ => cases n <;> trivial
  | call c next ih =>
    cases n with
    | zero => cases h
    | succ n => exact fun r => ih r (h r)

theorem AtMost.drive {O : Type} {σ : Type v}
    {exec : {β : Type} → C β → O → σ → Except ε β × σ} {p : Async C ε α} {os : List O} {s : σ}
    (h : p.AtMost n) (hnone : (p.drive exec os s).1 = none) : os.length < n := by
  induction os generalizing p n s with
  | nil =>
    cases p with
    | done _ => cases hnone
    | call c next =>
      cases n with
      | zero => cases h
      | succ n => exact Nat.succ_pos n
  | cons o os ih =>
    cases p with
    | done _ => cases hnone
    | call c next =>
      cases n with
      | zero => cases h
      | succ n => exact Nat.succ_lt_succ (ih (h _) hnone)

end count

end Async

/-- How calls act on a state, and what a program and the others promise each other. -/
structure Protocol (C : Type → Type u) (ε O : Type) (σ : Type v) where
  exec : {β : Type} → C β → O → σ → Except ε β × σ
  /-- What may be assumed of an answer. -/
  allow : {β : Type} → C β → O → σ → Prop
  /-- What the others may do between two steps. -/
  rely : σ → σ → Prop
  /-- What every step of the program does, at most. -/
  guar : σ → σ → Prop
  /-- What holds wherever the program is cut off. -/
  keep : σ → Prop
  refl : ∀ s, rely s s
  trans : ∀ {r s t}, rely r s → rely s t → rely r t

namespace Protocol

variable {C : Type → Type u} {ε O α β : Type} {σ : Type v} (R : Protocol C ε O σ)

def Safe (post : Except ε α → σ → Prop) : Async C ε α → σ → Prop
  | .done r, s => ∀ t, R.rely s t → R.keep t ∧ post r t
  | .call c next, s => ∀ t, R.rely s t → R.keep t ∧ ∀ o, R.allow c o t →
      R.guar t (R.exec c o t).2 ∧ Safe post (next (R.exec c o t).1) (R.exec c o t).2

def Triple (pre : σ → Prop) (p : Async C ε α) (post : Except ε α → σ → Prop) : Prop :=
  ∀ s, pre s → R.Safe post p s

/-- An assertion that the others respect and that a cut may leave behind. -/
structure Kept (P : σ → Prop) : Prop where
  stable : ∀ {s t}, P s → R.rely s t → P t
  keep : ∀ {s}, P s → R.keep s

variable {R} {P P' : σ → Prop} {post post' : Except ε α → σ → Prop} {p : Async C ε α}

theorem Safe.rely {s t : σ} (h : R.Safe post p s) (hst : R.rely s t) : R.Safe post p t := by
  cases p with
  | done r => exact fun u htu => h u (R.trans hst htu)
  | call c next => exact fun u htu => h u (R.trans hst htu)

theorem Safe.keep {s : σ} (h : R.Safe post p s) : R.keep s := by
  cases p with
  | done r => exact (h s (R.refl s)).1
  | call c next => exact (h s (R.refl s)).1

theorem Safe.result {r : Except ε α} {s : σ} (h : R.Safe post (.done r) s) : post r s :=
  (h s (R.refl s)).2

theorem Safe.call_imp {α' : Type} {post' : Except ε α' → σ → Prop} {c : C β}
    {next : Except ε β → Async C ε α} {next' : Except ε β → Async C ε α'} {s : σ}
    (h : R.Safe post (.call c next) s)
    (hnext : ∀ r t, R.Safe post (next r) t → R.Safe post' (next' r) t) :
    R.Safe post' (.call c next') s := by
  intro t hst
  obtain ⟨hkeep, hstep⟩ := h t hst
  refine ⟨hkeep, fun o ho => ?_⟩
  obtain ⟨hguar, hsafe⟩ := hstep o ho
  exact ⟨hguar, hnext _ _ hsafe⟩

theorem Safe.imp {s : σ} (h : R.Safe post p s) (himp : ∀ r t, post r t → post' r t) :
    R.Safe post' p s := by
  induction p generalizing s with
  | done r =>
    intro t hst
    obtain ⟨hkeep, hpost⟩ := h t hst
    exact ⟨hkeep, himp r t hpost⟩
  | call c next ih => exact h.call_imp fun r t => ih r

theorem Safe.bind {mid : Except ε β → σ → Prop} {q : Async C ε β} {f : β → Async C ε α} {s : σ}
    (h : R.Safe mid q s) (hf : ∀ a t, mid (.ok a) t → R.Safe post (f a) t)
    (he : ∀ e t, mid (.error e) t → post (.error e) t) : R.Safe post (q.bind f) s := by
  induction q generalizing s with
  | done r =>
    cases r with
    | ok a => exact hf a s h.result
    | error e =>
      intro t hst
      obtain ⟨hkeep, hmid⟩ := h t hst
      exact ⟨hkeep, he e t hmid⟩
  | call c next ih => exact h.call_imp fun r t => ih r

theorem Safe.drive {os : List O} {s : σ} (h : R.Safe post p s)
    (hallow : ∀ o ∈ os, ∀ {β : Type} (c : C β) t, R.allow c o t) :
    R.keep (p.drive R.exec os s).2 ∧
      ∀ r, (p.drive R.exec os s).1 = some r → post r (p.drive R.exec os s).2 := by
  induction os generalizing p s with
  | nil =>
    cases p with
    | done r => exact ⟨h.keep, by rintro _ ⟨⟩; exact h.result⟩
    | call c next => exact ⟨h.keep, nofun⟩
  | cons o os ih =>
    cases p with
    | done r => exact ⟨h.keep, by rintro _ ⟨⟩; exact h.result⟩
    | call c next =>
      obtain ⟨-, hstep⟩ := h s (R.refl s)
      obtain ⟨-, hnext⟩ := hstep o (hallow o List.mem_cons_self c s)
      exact ih hnext fun o' ho' => hallow o' (List.mem_cons_of_mem _ ho')

namespace Triple

theorem imp (h : R.Triple P p post) (hpre : ∀ s, P' s → P s)
    (hpost : ∀ r s, post r s → post' r s) : R.Triple P' p post' :=
  fun s hs => (h s (hpre s hs)).imp hpost

theorem done {r : Except ε α} (hP : R.Kept P) (h : ∀ s, P s → post r s) :
    R.Triple P (.done r) post :=
  fun _ hs t hst => ⟨hP.keep (hP.stable hs hst), h t (hP.stable hs hst)⟩

theorem call {c : C β} {next : Except ε β → Async C ε α} {mid : Except ε β → σ → Prop}
    (hP : R.Kept P)
    (hstep : ∀ s o, P s → R.allow c o s →
      R.guar s (R.exec c o s).2 ∧ mid (R.exec c o s).1 (R.exec c o s).2)
    (hnext : ∀ r, R.Triple (mid r) (next r) post) : R.Triple P (.call c next) post := by
  intro s hs t hst
  have ht := hP.stable hs hst
  refine ⟨hP.keep ht, fun o ho => ?_⟩
  obtain ⟨hguar, hmid⟩ := hstep t o ht ho
  exact ⟨hguar, hnext _ _ hmid⟩

theorem await {c : C α} (hP : R.Kept P) (hpost : ∀ r, R.Kept (post r))
    (hstep : ∀ s o, P s → R.allow c o s →
      R.guar s (R.exec c o s).2 ∧ post (R.exec c o s).1 (R.exec c o s).2) :
    R.Triple P (Async.await c) post :=
  call hP hstep fun r => done (hpost r) fun _ h => h

theorem bind {Q : Except ε β → σ → Prop} {q : Async C ε β} {f : β → Async C ε α}
    (h : R.Triple P q Q) (hf : ∀ a, R.Triple (Q (.ok a)) (f a) post)
    (he : ∀ e s, Q (.error e) s → post (.error e) s) : R.Triple P (q >>= f) post :=
  fun s hs => (h s hs).bind (fun a t ht => hf a t ht) he

theorem attempt {Q : Except ε (Except ε α) → σ → Prop}
    (h : R.Triple P p fun r => Q (.ok r)) : R.Triple P p.attempt Q := by
  intro s hs
  have hsafe := h s hs
  clear h hs
  induction p generalizing s with
  | done r => exact hsafe
  | call c next ih => exact hsafe.call_imp ih

theorem only {ok : {β : Type} → C β → Prop} (hP : R.Kept P) (hp : p.Only ok)
    (hstep : ∀ {β : Type} (c : C β) s o, ok c → P s → R.allow c o s →
      R.guar s (R.exec c o s).2 ∧ P (R.exec c o s).2) :
    R.Triple P p fun _ => P := by
  induction p with
  | done r => exact done hP fun _ h => h
  | call c next ih =>
    refine call hP ?_ fun r => ih r (hp.2 r)
    exact fun s o hs ho => hstep c s o hp.1 hs ho

theorem yields {Q : α → Prop} (h : R.Triple P p post) (hp : p.Yields Q) :
    R.Triple P p fun r s => post r s ∧ ∀ a, r = .ok a → Q a := by
  intro s hs
  have hsafe := h s hs
  clear h hs
  induction p generalizing s with
  | done r =>
    intro t hst
    obtain ⟨hkeep, hpost⟩ := hsafe t hst
    exact ⟨hkeep, hpost, by rintro a rfl; exact hp⟩
  | call c next ih => exact hsafe.call_imp fun r => ih r (hp r)

end Triple

section through

variable {D : Type → Type u} {f : {β : Type} → D β → C β}

def through (R : Protocol C ε O σ) (f : {β : Type} → D β → C β) : Protocol D ε O σ where
  exec c := R.exec (f c)
  allow c := R.allow (f c)
  rely := R.rely
  guar := R.guar
  keep := R.keep
  refl := R.refl
  trans := R.trans

theorem Kept.through (h : R.Kept P) : (R.through f).Kept P := ⟨h.stable, h.keep⟩

theorem Triple.lift {q : Async D ε α} (h : (R.through f).Triple P q post) :
    R.Triple P (q.lift f) post := by
  intro s hs
  have hsafe := h s hs
  clear h hs
  induction q generalizing s with
  | done r => exact hsafe
  | call c next ih =>
    intro t hst
    obtain ⟨hkeep, hstep⟩ := hsafe t hst
    refine ⟨hkeep, fun o ho => ?_⟩
    obtain ⟨hguar, hnext⟩ := hstep o ho
    exact ⟨hguar, ih _ _ hnext⟩

end through

end Protocol
