import Stunks.Pons.Trade.Floors

namespace Stunks.Pons

open Utils

structure SentBuy where
  quoteIn : Int
  feeBps : Int
  creatorTaxBps : Int
  snipeTaxBps : Int
  reservedTokens : Int

namespace SentBuy

def input (buy : SentBuy) (r : Reserves) : CurveBuyMathInput :=
  r.buyInput buy.quoteIn buy.feeBps buy.creatorTaxBps buy.snipeTaxBps buy.reservedTokens

def net (buy : SentBuy) : Int :=
  buy.quoteIn - share buy.quoteIn buy.feeBps - share buy.quoteIn buy.creatorTaxBps
    - share buy.quoteIn buy.snipeTaxBps

/-- The buy neither throws nor is clamped, and leaves `r'`. -/
def Fills (r : Reserves) (buy : SentBuy) (r' : Reserves) : Prop :=
  ∃ step, computeCurveBuy (buy.input r) = .ok step ∧ step.partialFill = false ∧
    r.afterBuy step = r'

variable {r r₁ r₂ : Reserves} {buys buys' : List SentBuy}

theorem Fills.spec {buy : SentBuy} {r' : Reserves} (h : Fills r buy r') :
    0 < r.pricingQuoteReserve ∧ 0 < buy.net ∧
      r' = ⟨r.pricingQuoteReserve + buy.net,
        ConstantProduct.rest buy.net r.pricingQuoteReserve r.tokenReserve⟩ := by
  obtain ⟨step, hstep, hwhole, rfl⟩ := h
  have hf := CurveBuyMathInput.fillable_of_ok hstep
  rw [CurveBuyMathInput.computeCurveBuy_eq (CurveBuyMathInput.nonNeg_of_ok hstep) hf] at hstep
  refine ⟨hf.quote, CurveBuyMathInput.netOf_pos hf.tax hf.quoteIn, ?_⟩
  split at hstep <;> obtain rfl := Except.ok.inj hstep
  case isTrue => cases hwhole
  case isFalse => rfl

theorem run_spec (h : Trace Fills r buys r₁) :
    (∀ x ∈ buys.map net, 0 ≤ x) ∧
      r₁.pricingQuoteReserve = r.pricingQuoteReserve + (buys.map net).sum ∧
      r₁.tokenReserve =
        ConstantProduct.restAll r.pricingQuoteReserve r.tokenReserve (buys.map net) := by
  induction h with
  | nil => simp
  | cons hfill _ ih =>
    obtain ⟨-, hnet, rfl⟩ := hfill.spec
    obtain ⟨hnets, hquote, htoken⟩ := ih
    refine ⟨List.forall_mem_cons.mpr ⟨hnet.le, hnets⟩, ?_, htoken⟩
    rw [hquote, List.map_cons, List.sum_cons, add_assoc]

theorem tokenReserve_lt (hne : buys ≠ []) (hperm : buys.Perm buys') (h₁ : Trace Fills r buys r₁)
    (h₂ : Trace Fills r buys' r₂) : r₁.tokenReserve < r₂.tokenReserve + buys.length := by
  obtain ⟨hnets, -, htoken₁⟩ := run_spec h₁
  obtain ⟨-, -, htoken₂⟩ := run_spec h₂
  have hquote : 0 < r.pricingQuoteReserve := by
    cases h₁ with
    | nil => exact absurd rfl hne
    | cons hfill _ => exact hfill.spec.1
  rw [htoken₁, htoken₂, ← List.length_map (f := net)]
  exact ConstantProduct.restAll_lt_of_perm (by simpa using hne) (hperm.map _) hnets hquote

/-- Two orders of the same whole fills end at the same quote reserve, and within one token unit
a buy of each other, less one. -/
theorem orders_close (hne : buys ≠ []) (hperm : buys.Perm buys') (h₁ : Trace Fills r buys r₁)
    (h₂ : Trace Fills r buys' r₂) :
    r₁.pricingQuoteReserve = r₂.pricingQuoteReserve ∧
      |r₁.tokenReserve - r₂.tokenReserve| ≤ buys.length - 1 := by
  constructor
  · rw [(run_spec h₁).2.1, (run_spec h₂).2.1, (hperm.map net).sum_eq]
  · have hlt := tokenReserve_lt hne hperm h₁ h₂
    have hne' : buys' ≠ [] := fun h => hne (h ▸ hperm).eq_nil
    have hgt := tokenReserve_lt hne' hperm.symm h₂ h₁
    rw [← hperm.length_eq] at hgt
    rw [abs_le]
    omega

def pair : List SentBuy := [⟨1, 0, 0, 0, 0⟩, ⟨2, 0, 0, 0, 0⟩]

theorem orders_close_pair :
    (⟨4, 1⟩ : Reserves).pricingQuoteReserve = (⟨4, 2⟩ : Reserves).pricingQuoteReserve ∧
      |(⟨4, 1⟩ : Reserves).tokenReserve - (⟨4, 2⟩ : Reserves).tokenReserve| ≤ pair.length - 1 :=
  have hfirst : Trace Fills ⟨1, 4⟩ pair ⟨4, 1⟩ :=
    .cons (show Fills _ _ ⟨2, 2⟩ from ⟨_, rfl, rfl, rfl⟩) (.cons ⟨_, rfl, rfl, rfl⟩ .nil)
  have hsecond : Trace Fills ⟨1, 4⟩ [⟨2, 0, 0, 0, 0⟩, ⟨1, 0, 0, 0, 0⟩] ⟨4, 2⟩ :=
    .cons (show Fills _ _ ⟨3, 2⟩ from ⟨_, rfl, rfl, rfl⟩) (.cons ⟨_, rfl, rfl, rfl⟩ .nil)
  orders_close (by decide) (List.Perm.swap _ _ _) hfirst hsecond

end SentBuy

end Stunks.Pons
