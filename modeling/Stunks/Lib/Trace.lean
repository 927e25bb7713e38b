
universe u v

/-- `Trace step s ls s'`: the steps labelled `ls` lead from `s` to `s'`. -/
inductive Trace {σ : Type u} {ℓ : Type v} (step : σ → ℓ → σ → Prop) : σ → List ℓ → σ → Prop
  | nil {s} : Trace step s [] s
  | cons {s l s' ls s''} : step s l s' → Trace step s' ls s'' → Trace step s (l :: ls) s''

namespace Trace

variable {σ : Type u} {ℓ : Type v} {step : σ → ℓ → σ → Prop}

theorem snoc {s s' s'' : σ} {l : ℓ} {ls : List ℓ} (h : Trace step s ls s') (hs : step s' l s'') :
    Trace step s (ls ++ [l]) s'' := by
  induction h with
  | nil => exact .cons hs .nil
  | cons hfirst _ ih => exact .cons hfirst (ih hs)

theorem invariant {I : σ → Prop} (keep : ∀ {s l s'}, I s → step s l s' → I s')
    {s s' : σ} {ls : List ℓ} (h : Trace step s ls s') (hi : I s) : I s' := by
  induction h with
  | nil => exact hi
  | cons hs _ ih => exact ih (keep hi hs)

theorem transfer {step' : σ → ℓ → σ → Prop} {I : σ → Prop}
    (keep : ∀ {s l s'}, I s → step s l s' → I s' ∧ step' s l s')
    {s s' : σ} {ls : List ℓ} (h : Trace step s ls s') (hi : I s) : I s' ∧ Trace step' s ls s' := by
  induction h with
  | nil => exact ⟨hi, .nil⟩
  | cons hs _ ih =>
    obtain ⟨hi', hs'⟩ := keep hi hs
    obtain ⟨hi'', hrest⟩ := ih hi'
    exact ⟨hi'', .cons hs' hrest⟩

theorem ordered {I : σ → Prop} {R : σ → σ → Prop} (refl : ∀ s, R s s)
    (trans : ∀ {a b c}, R a b → R b c → R a c)
    (keep : ∀ {s l s'}, I s → step s l s' → I s' ∧ R s s')
    {s s' : σ} {ls : List ℓ} (h : Trace step s ls s') (hi : I s) : I s' ∧ R s s' := by
  induction h with
  | nil => exact ⟨hi, refl _⟩
  | cons hs _ ih =>
    obtain ⟨hi', hr⟩ := keep hi hs
    obtain ⟨hi'', hr'⟩ := ih hi'
    exact ⟨hi'', trans hr hr'⟩

def Via (step : σ → ℓ → σ → Prop) (s : σ) (ls : List ℓ) (s' mid : σ) : Prop :=
  ∃ before after, before ++ after = ls ∧ Trace step s before mid ∧ Trace step mid after s'

theorem exists_turn {Q : σ → Prop} {s s' : σ} {ls : List ℓ} (h : Trace step s ls s') (hs : ¬Q s)
    (hs' : Q s') : ∃ before l t t', Trace step s before t ∧ step t l t' ∧ ¬Q t ∧ Q t' ∧
      Via step s ls s' t' := by
  induction h with
  | nil => exact absurd hs' hs
  | @cons s l t ls s' hstep hrest ih =>
    by_cases ht : Q t
    · exact ⟨[], l, s, t, .nil, hstep, hs, ht, [l], ls, rfl, .cons hstep .nil, hrest⟩
    · obtain ⟨before, l', u, u', hbefore, hturn, hu, hu', init, rest, rfl, hinit, hafter⟩ :=
        ih ht hs'
      exact ⟨l :: before, l', u, u', .cons hstep hbefore, hturn, hu, hu', l :: init, rest, rfl,
        .cons hstep hinit, hafter⟩

theorem of_foldlM {next : σ → ℓ → Option σ} {s s' : σ} {ls : List ℓ}
    (h : ls.foldlM next s = some s') : Trace (fun s l s' => next s l = some s') s ls s' := by
  induction ls generalizing s with
  | nil =>
    cases h
    exact .nil
  | cons l ls ih =>
    obtain ⟨t, ht, hrest⟩ := Option.bind_eq_some_iff.mp (List.foldlM_cons.symm.trans h)
    exact .cons ht (ih hrest)

theorem exists_of_any {next : σ → ℓ → Option σ} {s : σ} {ls : List ℓ} {test : σ → Bool}
    (h : (ls.foldlM next s).any test = true) :
    ∃ s', Trace (fun s l s' => next s l = some s') s ls s' ∧ test s' = true := by
  obtain ⟨s', hs', htest⟩ := (Option.any_eq_true ..).mp h
  exact ⟨s', of_foldlM hs', htest⟩

end Trace
