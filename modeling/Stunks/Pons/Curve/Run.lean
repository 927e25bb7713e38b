import Stunks.Lib.Trace
import Stunks.Pons.Curve.Math

namespace Stunks.Pons

structure Reserves where
  pricingQuoteReserve : Int
  tokenReserve : Int
  deriving DecidableEq

inductive Trade
  | buy (quoteIn feeBps creatorTaxBps snipeTaxBps reservedTokens : Int)
  | sell (tokensIn feeBps creatorTaxBps : Int)

namespace Reserves

def buyInput (r : Reserves) (quoteIn feeBps creatorTaxBps snipeTaxBps reservedTokens : Int) :
    CurveBuyMathInput :=
  { r with quoteIn, feeBps, creatorTaxBps, snipeTaxBps, reservedTokens }

def afterBuy (r : Reserves) (step : CurveBuyMathResult) : Reserves where
  pricingQuoteReserve := r.pricingQuoteReserve
    + (step.spent - step.feeAmount - step.creatorTaxAmount - step.snipeTaxAmount)
  tokenReserve := r.tokenReserve - step.tokensOut

def trade (r : Reserves) : Trade → Except JsError Reserves
  | .buy quoteIn feeBps creatorTaxBps snipeTaxBps reservedTokens => do
    let step ← computeCurveBuy
      (r.buyInput quoteIn feeBps creatorTaxBps snipeTaxBps reservedTokens)
    return r.afterBuy step
  | .sell tokensIn feeBps creatorTaxBps => do
    let step ← computeCurveSell { r with tokensIn, feeBps, creatorTaxBps }
    return {
      pricingQuoteReserve := r.pricingQuoteReserve - step.grossQuoteOut
      tokenReserve := r.tokenReserve + tokensIn }

def product (r : Reserves) : Int := r.pricingQuoteReserve * r.tokenReserve

structure Positive (r : Reserves) : Prop where
  quote : 0 < r.pricingQuoteReserve
  token : 0 < r.tokenReserve

end Reserves

/-- A trade the curve accepts, and the reserves it leaves. -/
def Accepts (r : Reserves) (t : Trade) (r' : Reserves) : Prop := r.trade t = .ok r'

instance (r : Reserves) (t : Trade) (r' : Reserves) : Decidable (Accepts r t r') :=
  inferInstanceAs (Decidable (r.trade t = .ok r'))

theorem Accepts.buy_product {r r' : Reserves} {quoteIn fee tax snipe reserved : Int}
    (hr : r.Positive) (h : Accepts r (.buy quoteIn fee tax snipe reserved) r') :
    r'.Positive ∧ r.product ≤ r'.product := by
  obtain ⟨step, hstep, h⟩ := bind_eq_ok.mp h
  obtain rfl := Except.ok.inj h
  have hfills := CurveBuyMathInput.fills_of_ok hstep
  have hproduct : r.product ≤ (r.afterBuy step).product := hfills.product
  have hquote : 0 < (r.afterBuy step).pricingQuoteReserve := add_pos hr.quote hfills.net_pos
  refine ⟨⟨hquote, ?_⟩, hproduct⟩
  have : 0 < r.product := mul_pos hr.quote hr.token
  exact pos_of_mul_pos_right (this.trans_le hproduct) hquote.le

theorem Accepts.sell_product {r r' : Reserves} {tokensIn fee tax : Int}
    (hr : r.Positive) (h : Accepts r (.sell tokensIn fee tax) r') :
    r'.Positive ∧ r.product ≤ r'.product := by
  obtain ⟨step, hstep, h⟩ := bind_eq_ok.mp h
  obtain rfl := Except.ok.inj h
  obtain ⟨hx, -, -, hgross⟩ := CurveSellMathInput.computeCurveSell_ok hstep
  have hrest := ConstantProduct.rest_pos hx.le hr.token hr.quote
  have hproduct := ConstantProduct.product_le (q := r.tokenReserve) (x := tokensIn)
    (t := r.pricingQuoteReserve) (by have := hr.token; simp only at hx; omega)
  simp only at hgross hx
  refine ⟨⟨?_, add_pos hr.token hx⟩, ?_⟩
  · rw [hgross]
    exact hrest
  · rw [Reserves.product, Reserves.product, hgross, mul_comm, mul_comm (_ - _)]
    exact hproduct

theorem Accepts.product {r r' : Reserves} {t : Trade} (hr : r.Positive) (h : Accepts r t r') :
    r'.Positive ∧ r.product ≤ r'.product := by
  cases t with
  | buy => exact h.buy_product hr
  | sell => exact h.sell_product hr

theorem trades_product {r r' : Reserves} {ts : List Trade} (hr : r.Positive)
    (h : Trace Accepts r ts r') : r'.Positive ∧ r.product ≤ r'.product :=
  Trace.ordered (R := fun r r' => r.product ≤ r'.product) (fun _ => le_rfl) le_trans
    Accepts.product h hr

/-- No sequence of trades lowers the product at any point of it, so none that returns the
tokens it took extracts quote. -/
theorem trades_extract_nothing {r₀ r₁ r₂ : Reserves} {ts us : List Trade} (hr : r₀.Positive)
    (h₁ : Trace Accepts r₀ ts r₁) (h₂ : Trace Accepts r₁ us r₂) :
    r₁.product ≤ r₂.product ∧ r₂.Positive ∧
      (r₂.tokenReserve ≤ r₀.tokenReserve → r₀.pricingQuoteReserve ≤ r₂.pricingQuoteReserve) := by
  obtain ⟨hr₁, hle₁⟩ := trades_product hr h₁
  obtain ⟨hr₂, hle₂⟩ := trades_product hr₁ h₂
  refine ⟨hle₂, hr₂, fun htoken => ?_⟩
  have hle : r₀.product ≤ r₂.pricingQuoteReserve * r₀.tokenReserve :=
    (hle₁.trans hle₂).trans (mul_le_mul_of_nonneg_left htoken hr₂.quote.le)
  exact le_of_mul_le_mul_right hle hr.token

/-- A clamped buy, then a sell of everything it bought. -/
theorem trades_extract_nothing_clamped :
    (⟨27, 40⟩ : Reserves).product ≤ (⟨11, 100⟩ : Reserves).product ∧
      (⟨11, 100⟩ : Reserves).Positive ∧ ((100 : Int) ≤ 100 → (10 : Int) ≤ 11) :=
  trades_extract_nothing (show (⟨10, 100⟩ : Reserves).Positive from ⟨by decide, by decide⟩)
    (show Trace Accepts _ [.buy 1000 100 100 0 40] _ from .cons (by decide) .nil)
    (show Trace Accepts _ [.sell 60 100 100] _ from .cons (by decide) .nil)

end Stunks.Pons
