import Stunks.Lib.ConstantProduct
import Stunks.Lib.Floors
import Stunks.Utils.Money

/-! `curve/math.ts`: the bonding curve's constant product and its fee legs. -/

namespace Stunks.Pons

open Utils

def getAmountOut (amountIn reserveIn reserveOut feeBps : Int) : Except JsError Int :=
  if amountIn ≤ 0 then .error (.error "getAmountOut: amountIn must be positive")
  else if reserveIn ≤ 0 ∨ reserveOut ≤ 0 then
    .error (.error "getAmountOut: insufficient liquidity")
  else
    let amountInWithFee := amountIn * (basisPoints - feeBps)
    let numerator := amountInWithFee * reserveOut
    let denominator := reserveIn * basisPoints + amountInWithFee
    divide numerator denominator

def quoteAmountOut (amountIn reserveIn reserveOut feeBps : Int) : Int :=
  if amountIn ≤ 0 ∨ reserveIn ≤ 0 ∨ reserveOut ≤ 0 ∨ feeBps ≥ basisPoints then 0
  else
    let amountInWithFee := amountIn * (basisPoints - feeBps)
    (amountInWithFee * reserveOut).tdiv (reserveIn * basisPoints + amountInWithFee)

def getAmountIn (amountOut reserveIn reserveOut feeBps : Int) : Except JsError Int :=
  if amountOut ≤ 0 then .error (.error "getAmountIn: amountOut must be positive")
  else if reserveIn ≤ 0 ∨ reserveOut ≤ amountOut then
    .error (.error "getAmountIn: insufficient liquidity")
  else if feeBps ≥ basisPoints then .error (.error "getAmountIn: fee consumes entire trade")
  else do
    let numerator := amountOut * reserveIn * basisPoints
    let denominator := (reserveOut - amountOut) * (basisPoints - feeBps)
    return (← divide numerator denominator) + 1

theorem getAmountOut_zero_fee {x q t : Int} (hx : 0 < x) (hq : 0 < q) (ht : 0 < t) :
    getAmountOut x q t 0 = .ok (ConstantProduct.out x q t) := by
  rw [getAmountOut, if_neg (by omega), if_neg (by omega)]
  have hb : (0 : Int) < basisPoints := by decide
  have hnum : 0 ≤ x * (basisPoints - 0) * t := by positivity
  have hden : 0 < q * basisPoints + x * (basisPoints - 0) := by positivity
  rw [divide_of_nonneg hnum hden, ConstantProduct.out]
  congr 1
  rw [show x * (basisPoints - 0) * t = x * t * basisPoints by ring,
    show q * basisPoints + x * (basisPoints - 0) = (q + x) * basisPoints by ring,
    Int.mul_ediv_mul_of_pos_left _ _ hb]

theorem getAmountIn_zero_fee {y q t : Int} (hy : 0 < y) (hq : 0 < q) (ht : y < t) :
    getAmountIn y q t 0 = .ok (y * q / (t - y) + 1) := by
  rw [getAmountIn, if_neg (by omega), if_neg (by omega), if_neg (by decide)]
  have hb : (0 : Int) < basisPoints := by decide
  have hnum : 0 ≤ y * q * basisPoints := by positivity
  have hden : 0 < (t - y) * (basisPoints - 0) := mul_pos (by omega) (by decide)
  simp only [divide_of_nonneg hnum hden, ok_bind]
  rw [sub_zero, Int.mul_ediv_mul_of_pos_left _ _ hb]
  rfl

theorem quoteAmountOut_zero_fee {x q t : Int} (hx : 0 < x) (hq : 0 < q) (ht : 0 < t) :
    quoteAmountOut x q t 0 = ConstantProduct.out x q t := by
  have h := getAmountOut_zero_fee hx hq ht
  rw [getAmountOut, if_neg (by omega), if_neg (by omega)] at h
  have hden : q * basisPoints + x * (basisPoints - 0) ≠ 0 :=
    (add_pos (mul_pos hq (by decide)) (mul_pos hx (by decide))).ne'
  rw [quoteAmountOut, if_neg (by simp only [basisPoints]; omega)]
  simp only [divide, if_neg hden] at h
  exact Except.ok.inj h

theorem getAmountOut_ok {x q t fee y : Int} (h : getAmountOut x q t fee = .ok y) :
    0 < x ∧ 0 < q ∧ 0 < t := by
  unfold getAmountOut at h
  split at h
  · cases h
  · split at h
    · cases h
    · omega

structure CurveBuyMathInput where
  quoteIn : Int
  pricingQuoteReserve : Int
  tokenReserve : Int
  feeBps : Int
  creatorTaxBps : Int
  snipeTaxBps : Int := 0
  reservedTokens : Int := 0

structure CurveBuyMathResult where
  tokensOut : Int
  spent : Int
  refund : Int
  feeAmount : Int
  creatorTaxAmount : Int
  snipeTaxAmount : Int
  partialFill : Bool
  deriving DecidableEq

def CurveBuyMathInput.totalTaxBps (input : CurveBuyMathInput) : Int :=
  input.feeBps + input.creatorTaxBps + input.snipeTaxBps

def computeCurveBuy (input : CurveBuyMathInput) : Except JsError CurveBuyMathResult :=
  if input.quoteIn ≤ 0 then .error (.error "computeCurveBuy: quoteIn must be positive")
  else if input.totalTaxBps ≥ basisPoints then
    .error (.snipeTaxNotModellable input.feeBps input.creatorTaxBps input.snipeTaxBps)
  else do
    let feeAmount ← applyBps input.quoteIn input.feeBps
    let creatorTaxAmount ← applyBps input.quoteIn input.creatorTaxBps
    let snipeTaxAmount ← applyBps input.quoteIn input.snipeTaxBps
    let tokensOut ← getAmountOut (input.quoteIn - feeAmount - creatorTaxAmount - snipeTaxAmount)
      input.pricingQuoteReserve input.tokenReserve 0
    let sellable :=
      if input.tokenReserve > input.reservedTokens then input.tokenReserve - input.reservedTokens
      else 0
    if sellable = 0 then
      .error (.error "computeCurveBuy: curve has no sellable allocation left")
    else if tokensOut > sellable then
      -- price the clamped fill from the token side, then gross back up
      let net ← getAmountIn sellable input.pricingQuoteReserve input.tokenReserve 0
      let grossed ← ceilDiv (net * basisPoints) (basisPoints - input.totalTaxBps)
      let spent := bigintMin grossed input.quoteIn
      return {
        tokensOut := sellable
        spent
        refund := input.quoteIn - spent
        feeAmount := ← applyBps spent input.feeBps
        creatorTaxAmount := ← applyBps spent input.creatorTaxBps
        snipeTaxAmount := ← applyBps spent input.snipeTaxBps
        partialFill := true }
    else
      return {
        tokensOut
        spent := input.quoteIn
        refund := input.quoteIn - input.quoteIn
        feeAmount
        creatorTaxAmount
        snipeTaxAmount
        partialFill := false }

structure CurveSellMathInput where
  tokensIn : Int
  pricingQuoteReserve : Int
  tokenReserve : Int
  feeBps : Int
  creatorTaxBps : Int

structure CurveSellMathResult where
  quoteOut : Int
  grossQuoteOut : Int
  feeAmount : Int
  creatorTaxAmount : Int
  deriving DecidableEq

def computeCurveSell (input : CurveSellMathInput) : Except JsError CurveSellMathResult :=
  if input.tokensIn ≤ 0 then .error (.error "computeCurveSell: tokensIn must be positive")
  else do
    let grossQuoteOut ← getAmountOut input.tokensIn input.tokenReserve input.pricingQuoteReserve 0
    let feeAmount ← applyBps grossQuoteOut input.feeBps
    let creatorTaxAmount ← applyBps grossQuoteOut input.creatorTaxBps
    return {
      quoteOut := grossQuoteOut - feeAmount - creatorTaxAmount
      grossQuoteOut
      feeAmount
      creatorTaxAmount }

def computeReservedTokens (supply phantomQuote graduationThreshold : Int) : Except JsError Int :=
  if phantomQuote + graduationThreshold = 0 then
    .error (.error "computeReservedTokens: degenerate launch economics")
  else mulDiv supply phantomQuote (phantomQuote + graduationThreshold)

def computePriceImpactBps (amountIn reserveIn reserveOut : Int) : Int :=
  if amountIn ≤ 0 ∨ reserveIn ≤ 0 ∨ reserveOut ≤ 0 then 0
  else
    let amountOut := quoteAmountOut amountIn reserveIn reserveOut 0
    if amountOut = 0 then 0
    else
      let spotNumerator := reserveIn * amountOut
      let effectiveNumerator := amountIn * reserveOut
      if effectiveNumerator ≤ spotNumerator then 0
      else ((effectiveNumerator - spotNumerator) * basisPoints).tdiv spotNumerator

theorem computePriceImpactBps_eq {x q t : Int} (hx : 0 < x) (hq : 0 < q) (ht : 0 < t)
    (hout : ConstantProduct.out x q t ≠ 0) :
    0 < q * ConstantProduct.out x q t ∧
      x * ConstantProduct.out x q t ≤ x * t - q * ConstantProduct.out x q t ∧
      computePriceImpactBps x q t =
        (x * t - q * ConstantProduct.out x q t) * basisPoints / (q * ConstantProduct.out x q t) := by
  have hpos : 0 < ConstantProduct.out x q t :=
    lt_of_le_of_ne (ConstantProduct.out_nonneg hx.le hq ht.le) (Ne.symm hout)
  have hspot : 0 < q * ConstantProduct.out x q t := mul_pos hq hpos
  have hcross := (ConstantProduct.le_out_iff_cross (show 0 < q + x by omega)).mp
    (le_refl (ConstantProduct.out x q t))
  have habove : x * ConstantProduct.out x q t ≤ x * t - q * ConstantProduct.out x q t := by
    rw [mul_sub, mul_comm _ q] at hcross
    omega
  have hpaid : 0 < x * ConstantProduct.out x q t := mul_pos hx hpos
  refine ⟨hspot, habove, ?_⟩
  rw [computePriceImpactBps, if_neg (by omega), quoteAmountOut_zero_fee hx hq ht]
  dsimp only
  rw [if_neg hout, if_neg (by omega), Int.tdiv_eq_ediv_of_nonneg]
  exact mul_nonneg (by omega) (by decide)

theorem computePriceImpactBps_eq_zero_iff {x q t : Int} (hx : 0 < x) (hq : 0 < q) (ht : 0 < t) :
    computePriceImpactBps x q t = 0 ↔ ConstantProduct.out x q t = 0 ∨
      (x * t - q * ConstantProduct.out x q t) * basisPoints < q * ConstantProduct.out x q t := by
  by_cases hout : ConstantProduct.out x q t = 0
  · rw [computePriceImpactBps, if_neg (by omega), quoteAmountOut_zero_fee hx hq ht]
    simp [hout]
  · obtain ⟨hspot, habove, heq⟩ := computePriceImpactBps_eq hx hq ht hout
    have hpaid := mul_nonneg hx.le (ConstantProduct.out_nonneg hx.le hq ht.le)
    have hnum : 0 ≤ (x * t - q * ConstantProduct.out x q t) * basisPoints :=
      mul_nonneg (hpaid.trans habove) (by decide)
    rw [heq, or_iff_right hout]
    constructor
    · intro hzero
      by_contra hge
      have hone : 1 ≤ (x * t - q * ConstantProduct.out x q t) * basisPoints /
          (q * ConstantProduct.out x q t) :=
        Int.le_ediv_of_mul_le hspot (by rw [one_mul]; exact not_lt.mp hge)
      omega
    · exact Int.ediv_eq_zero_of_lt hnum

def CurveBuyMathResult.net (r : CurveBuyMathResult) : Int :=
  r.spent - r.feeAmount - r.creatorTaxAmount - r.snipeTaxAmount

namespace CurveBuyMathInput

structure NonNeg (input : CurveBuyMathInput) : Prop where
  feeBps : 0 ≤ input.feeBps
  creatorTaxBps : 0 ≤ input.creatorTaxBps
  snipeTaxBps : 0 ≤ input.snipeTaxBps

structure Fillable (input : CurveBuyMathInput) : Prop where
  quoteIn : 0 < input.quoteIn
  tax : input.totalTaxBps < basisPoints
  quote : 0 < input.pricingQuoteReserve
  token : 0 < input.tokenReserve
  sellable : input.reservedTokens < input.tokenReserve

def netOf (input : CurveBuyMathInput) (spent : Int) : Int :=
  spent - share spent input.feeBps - share spent input.creatorTaxBps
    - share spent input.snipeTaxBps

def filled (input : CurveBuyMathInput) (tokensOut spent : Int) (partialFill : Bool) :
    CurveBuyMathResult where
  tokensOut
  spent
  refund := input.quoteIn - spent
  feeAmount := share spent input.feeBps
  creatorTaxAmount := share spent input.creatorTaxBps
  snipeTaxAmount := share spent input.snipeTaxBps
  partialFill

def unclampedOut (input : CurveBuyMathInput) : Int :=
  ConstantProduct.out (input.netOf input.quoteIn) input.pricingQuoteReserve input.tokenReserve

def sellable (input : CurveBuyMathInput) : Int := input.tokenReserve - input.reservedTokens

/-- The net price of the sellable allocation, with the library's `+ 1`. -/
def clampedNet (input : CurveBuyMathInput) : Int :=
  input.sellable * input.pricingQuoteReserve / input.reservedTokens + 1

def clampedSpent (input : CurveBuyMathInput) : Int :=
  let remaining := basisPoints - input.totalTaxBps
  bigintMin ((input.clampedNet * basisPoints + remaining - 1) / remaining) input.quoteIn

variable {input : CurveBuyMathInput}

@[simp] theorem filled_tokensOut (out spent : Int) (p : Bool) :
    (input.filled out spent p).tokensOut = out := rfl

@[simp] theorem filled_net (out spent : Int) (p : Bool) :
    (input.filled out spent p).net = input.netOf spent := rfl

theorem share_legs_le (input : CurveBuyMathInput) (spent : Int) :
    spent * (basisPoints - input.totalTaxBps) ≤ input.netOf spent * basisPoints := by
  have h1 := share_mul_le spent input.feeBps
  have h2 := share_mul_le spent input.creatorTaxBps
  have h3 := share_mul_le spent input.snipeTaxBps
  unfold netOf totalTaxBps
  linarith

theorem netOf_pos (ht : input.totalTaxBps < basisPoints) {spent : Int}
    (hs : 0 < spent) : 0 < input.netOf spent := by
  have hle := share_legs_le input spent
  have hpos : 0 < spent * (basisPoints - input.totalTaxBps) := mul_pos hs (by omega)
  unfold basisPoints at *
  omega

theorem reservedTokens_pos_of_clamped (hf : input.Fillable)
    (hc : input.sellable < input.unclampedOut) : 0 < input.reservedTokens := by
  have hlt : input.unclampedOut < input.tokenReserve :=
    ConstantProduct.out_lt (netOf_pos hf.tax hf.quoteIn).le hf.quote hf.token
  unfold sellable at hc
  omega

theorem clampedNet_pos (hf : input.Fillable) (hc : input.sellable < input.unclampedOut) :
    0 < input.clampedNet := by
  have hsell : 0 ≤ input.sellable := by have := hf.sellable; unfold sellable; omega
  have h : 0 ≤ input.sellable * input.pricingQuoteReserve / input.reservedTokens :=
    Int.ediv_nonneg (mul_nonneg hsell hf.quote.le) (reservedTokens_pos_of_clamped hf hc).le
  unfold clampedNet
  omega

theorem clampedSpent_pos (hf : input.Fillable) (hc : input.sellable < input.unclampedOut) :
    0 < input.clampedSpent := by
  have hr : 0 < basisPoints - input.totalTaxBps := by have := hf.tax; omega
  have hnum : 0 < input.clampedNet * basisPoints := mul_pos (clampedNet_pos hf hc) (by decide)
  have hceil := Floors.le_ceil_mul (input.clampedNet * basisPoints) hr
  unfold clampedSpent
  rcases bigintMin_cases ((input.clampedNet * basisPoints + (basisPoints - input.totalTaxBps) - 1)
    / (basisPoints - input.totalTaxBps)) input.quoteIn with ⟨-, h⟩ | ⟨-, h⟩
  · rw [h]
    by_contra hle
    have := mul_nonpos_of_nonpos_of_nonneg (not_lt.mp hle) hr.le
    omega
  · rw [h]
    exact hf.quoteIn

theorem clampedNet_eq (hf : input.Fillable) (hc : input.sellable < input.unclampedOut) :
    getAmountIn input.sellable input.pricingQuoteReserve input.tokenReserve 0 =
      .ok input.clampedNet := by
  have hr := reservedTokens_pos_of_clamped hf hc
  have hs := hf.sellable
  rw [getAmountIn_zero_fee (by unfold sellable; omega) hf.quote (by unfold sellable; omega),
    clampedNet, show input.tokenReserve - input.sellable = input.reservedTokens by
      unfold sellable; omega]

theorem computeCurveBuy_eq (hn : input.NonNeg) (hf : input.Fillable) :
    computeCurveBuy input = .ok
      (if input.sellable < input.unclampedOut then
        input.filled input.sellable input.clampedSpent true
      else input.filled input.unclampedOut input.quoteIn false) := by
  have hq := hf.quoteIn
  have ht := hf.token
  have hsell : ¬input.sellable = 0 := by have := hf.sellable; unfold sellable; omega
  have hout : getAmountOut (input.quoteIn - share input.quoteIn input.feeBps
      - share input.quoteIn input.creatorTaxBps - share input.quoteIn input.snipeTaxBps)
      input.pricingQuoteReserve input.tokenReserve 0 = .ok input.unclampedOut :=
    getAmountOut_zero_fee (netOf_pos hf.tax hq) hf.quote ht
  simp only [computeCurveBuy, if_neg (not_le.mpr hq), if_neg (not_le.mpr hf.tax),
    applyBps_of_nonneg hq.le hn.feeBps, applyBps_of_nonneg hq.le hn.creatorTaxBps,
    applyBps_of_nonneg hq.le hn.snipeTaxBps, ok_bind, hout, gt_iff_lt,
    if_pos hf.sellable]
  rw [← sellable, if_neg hsell]
  by_cases hc : input.sellable < input.unclampedOut
  · have hspent : 0 ≤ input.clampedSpent := (clampedSpent_pos hf hc).le
    have hgross := ceilDiv_of_pos (mul_pos (clampedNet_pos hf hc) (show 0 < basisPoints by decide))
      (show 0 < basisPoints - input.totalTaxBps by have := hf.tax; omega)
    simp only [if_pos hc, clampedNet_eq hf hc, ok_bind, hgross]
    rw [← clampedSpent]
    simp only [applyBps_of_nonneg hspent hn.feeBps, applyBps_of_nonneg hspent hn.creatorTaxBps,
      applyBps_of_nonneg hspent hn.snipeTaxBps, ok_bind]
    rfl
  · simp only [if_neg hc]
    rfl

theorem nonNeg_of_ok {r : CurveBuyMathResult} (h : computeCurveBuy input = .ok r) :
    input.NonNeg := by
  unfold computeCurveBuy at h
  split at h
  · cases h
  split at h
  · cases h
  obtain ⟨_, hfee, h⟩ := bind_eq_ok.mp h
  obtain ⟨_, htax, h⟩ := bind_eq_ok.mp h
  obtain ⟨_, hsnipe, -⟩ := bind_eq_ok.mp h
  exact ⟨(applyBps_ok hfee).2, (applyBps_ok htax).2, (applyBps_ok hsnipe).2⟩

theorem fillable_of_ok {r : CurveBuyMathResult} (h : computeCurveBuy input = .ok r) :
    input.Fillable := by
  have hn := nonNeg_of_ok h
  unfold computeCurveBuy at h
  split at h
  · cases h
  rename_i hq
  split at h
  · cases h
  rename_i htax
  have hq0 : 0 ≤ input.quoteIn := by omega
  simp only [applyBps_of_nonneg hq0 hn.feeBps, applyBps_of_nonneg hq0 hn.creatorTaxBps,
    applyBps_of_nonneg hq0 hn.snipeTaxBps, ok_bind] at h
  obtain ⟨out, hout, h⟩ := bind_eq_ok.mp h
  obtain ⟨-, hquote, htoken⟩ := getAmountOut_ok hout
  refine ⟨by omega, by omega, hquote, htoken, ?_⟩
  by_contra hs
  simp [if_neg hs] at h

theorem sellable_mul_le (hf : input.Fillable) (hc : input.sellable < input.unclampedOut) :
    input.sellable * input.pricingQuoteReserve
      ≤ input.netOf input.clampedSpent * input.reservedTokens := by
  have hb : (0 : Int) < basisPoints := by decide
  have hres := reservedTokens_pos_of_clamped hf hc
  have hrem : 0 < basisPoints - input.totalTaxBps := by have := hf.tax; omega
  have hceil := Floors.le_ceil_mul (input.clampedNet * basisPoints) hrem
  unfold clampedSpent
  rcases bigintMin_cases ((input.clampedNet * basisPoints + (basisPoints - input.totalTaxBps) - 1)
    / (basisPoints - input.totalTaxBps)) input.quoteIn with ⟨-, h⟩ | ⟨-, h⟩
  · -- the grossed-up payment nets at least the rounded-up price
    rw [h]
    generalize (input.clampedNet * basisPoints + (basisPoints - input.totalTaxBps) - 1)
      / (basisPoints - input.totalTaxBps) = spent at hceil ⊢
    have hnet : input.clampedNet ≤ input.netOf spent :=
      le_of_mul_le_mul_right (hceil.trans (share_legs_le input spent)) hb
    have hprice : input.sellable * input.pricingQuoteReserve
        ≤ input.clampedNet * input.reservedTokens := by
      have := Int.lt_ediv_add_one_mul_self (input.sellable * input.pricingQuoteReserve) hres
      unfold clampedNet
      omega
    exact hprice.trans (by gcongr)
  · -- the whole of `quoteIn` already buys more than the allocation
    rw [h]
    have hnet := netOf_pos hf.tax hf.quoteIn
    have hq := hf.quote
    have hle := (ConstantProduct.le_out_iff (show 0 < input.pricingQuoteReserve
      + input.netOf input.quoteIn by omega)).mp hc.le
    have hres' : input.reservedTokens = input.tokenReserve - input.sellable := by
      unfold sellable
      omega
    rw [hres']
    linarith

structure Fills (input : CurveBuyMathInput) (r : CurveBuyMathResult) : Prop where
  tokensOut_nonneg : 0 ≤ r.tokensOut
  tokensOut_le : r.tokensOut ≤ input.sellable
  net_pos : 0 < r.net
  product : input.pricingQuoteReserve * input.tokenReserve
    ≤ (input.pricingQuoteReserve + r.net) * (input.tokenReserve - r.tokensOut)

theorem fills_of_ok {r : CurveBuyMathResult} (h : computeCurveBuy input = .ok r) :
    input.Fills r := by
  have hn := nonNeg_of_ok h
  have hf := fillable_of_ok h
  have hq := hf.quote
  have ht := hf.token
  rw [computeCurveBuy_eq hn hf] at h
  split at h <;> obtain rfl := Except.ok.inj h
  case isTrue hc =>
    refine ⟨?_, le_rfl, netOf_pos hf.tax (clampedSpent_pos hf hc), ?_⟩
    · have := hf.sellable
      simp only [filled_tokensOut, sellable]
      omega
    · have hmul := sellable_mul_le hf hc
      simp only [filled_net, filled_tokensOut]
      rw [show input.tokenReserve - input.sellable = input.reservedTokens by unfold sellable; omega,
        add_mul, show input.tokenReserve = input.reservedTokens + input.sellable by
          unfold sellable; omega]
      linarith
  case isFalse hc =>
    have hnet := netOf_pos hf.tax hf.quoteIn
    exact ⟨ConstantProduct.out_nonneg hnet.le hq ht.le, not_lt.mp hc, hnet,
      ConstantProduct.product_le (by simp only [filled_net]; omega)⟩

theorem computeCurveBuy_error_iff (hn : input.NonNeg) :
    (∃ error, computeCurveBuy input = .error error) ↔ ¬input.Fillable := by
  constructor
  · rintro ⟨error, h⟩ hf
    rw [computeCurveBuy_eq hn hf] at h
    cases h
  · intro hf
    cases h : computeCurveBuy input with
    | error error => exact ⟨error, rfl⟩
    | ok r => exact absurd (fillable_of_ok h) hf

theorem not_fillable_iff : ¬input.Fillable ↔
    input.quoteIn ≤ 0 ∨ basisPoints ≤ input.totalTaxBps ∨
      input.pricingQuoteReserve ≤ 0 ∨ input.tokenReserve ≤ 0 ∨
        input.tokenReserve ≤ input.reservedTokens := by
  constructor
  · intro h
    by_contra hno
    simp only [not_or, not_le] at hno
    exact h ⟨hno.1, hno.2.1, hno.2.2.1, hno.2.2.2.1, hno.2.2.2.2⟩
  · intro h hf
    have := hf.quoteIn
    have := hf.tax
    have := hf.quote
    have := hf.token
    have := hf.sellable
    omega

theorem clampedSpent_le (input : CurveBuyMathInput) : input.clampedSpent ≤ input.quoteIn := by
  unfold clampedSpent
  rcases bigintMin_cases ((input.clampedNet * basisPoints + (basisPoints - input.totalTaxBps) - 1)
    / (basisPoints - input.totalTaxBps)) input.quoteIn with ⟨hlt, h⟩ | ⟨-, h⟩
  · exact h.trans_le hlt.le
  · exact h.le

/-- What a fill charges for what it pays out. -/
structure Charges (input : CurveBuyMathInput) (r : CurveBuyMathResult) : Prop where
  tokensOut_nonneg : 0 ≤ r.tokensOut
  tokensOut_le : r.tokensOut ≤ input.tokenReserve - input.reservedTokens
  spent_pos : 0 < r.spent
  spent_le : r.spent ≤ input.quoteIn
  refund : r.spent + r.refund = input.quoteIn
  feeAmount : r.feeAmount = share r.spent input.feeBps
  creatorTaxAmount : r.creatorTaxAmount = share r.spent input.creatorTaxBps
  snipeTaxAmount : r.snipeTaxAmount = share r.spent input.snipeTaxBps
  net_pos : 0 < r.net
  covered : ∃ out, getAmountOut r.net input.pricingQuoteReserve input.tokenReserve 0 = .ok out ∧
    r.tokensOut ≤ out ∧ (r.partialFill = false → out = r.tokensOut)
  partialFill : r.partialFill = true ↔ ∃ out, getAmountOut (input.netOf input.quoteIn)
    input.pricingQuoteReserve input.tokenReserve 0 = .ok out ∧
      input.tokenReserve - input.reservedTokens < out

theorem getAmountOut_netOf (hf : input.Fillable) {spent : Int} (hs : 0 < spent) :
    getAmountOut (input.netOf spent) input.pricingQuoteReserve input.tokenReserve 0 =
      .ok (ConstantProduct.out (input.netOf spent) input.pricingQuoteReserve input.tokenReserve) :=
  getAmountOut_zero_fee (netOf_pos hf.tax hs) hf.quote hf.token

theorem clamps_iff (hf : input.Fillable) : (∃ out, getAmountOut (input.netOf input.quoteIn)
      input.pricingQuoteReserve input.tokenReserve 0 = .ok out ∧
        input.tokenReserve - input.reservedTokens < out) ↔ input.sellable < input.unclampedOut := by
  rw [getAmountOut_netOf hf hf.quoteIn]
  constructor
  · rintro ⟨out, hout, hlt⟩
    obtain rfl := Except.ok.inj hout
    exact hlt
  · exact fun h => ⟨_, rfl, h⟩

theorem charges_clamped (hf : input.Fillable) (hc : input.sellable < input.unclampedOut) :
    input.Charges (input.filled input.sellable input.clampedSpent true) := by
  have hspent := clampedSpent_pos hf hc
  have hnet := netOf_pos hf.tax hspent
  have hq := hf.quote
  have hsell : 0 ≤ input.sellable := by have := hf.sellable; unfold sellable; omega
  refine ⟨hsell, le_rfl, hspent, clampedSpent_le input, ?_, rfl, rfl, rfl, hnet,
    ⟨_, getAmountOut_netOf hf hspent, ?_, ?_⟩, ?_⟩
  · simp only [filled]
    omega
  · -- the allocation's price is what `netOf` still covers
    change input.sellable ≤ ConstantProduct.out (input.netOf input.clampedSpent) _ _
    rw [ConstantProduct.le_out_iff (by omega)]
    have hmul := sellable_mul_le hf hc
    have hres : input.reservedTokens = input.tokenReserve - input.sellable := by
      unfold sellable
      omega
    rw [hres] at hmul
    linarith
  · simp [filled]
  · simp only [filled, true_iff]
    exact (clamps_iff hf).mpr hc

theorem charges_full (hf : input.Fillable) (hc : ¬input.sellable < input.unclampedOut) :
    input.Charges (input.filled input.unclampedOut input.quoteIn false) := by
  have hnet := netOf_pos hf.tax hf.quoteIn
  refine ⟨ConstantProduct.out_nonneg hnet.le hf.quote hf.token.le, not_lt.mp hc, hf.quoteIn,
    le_rfl, ?_, rfl, rfl, rfl, hnet, ⟨_, getAmountOut_netOf hf hf.quoteIn, le_rfl, fun _ => rfl⟩, ?_⟩
  · simp only [filled]
    omega
  · rw [clamps_iff hf]
    simp only [filled, Bool.false_eq_true, false_iff]
    exact hc

/-- `computeCurveBuy` throws on four kinds of input, and every other one it charges exactly. -/
theorem computeCurveBuy_exact (hn : input.NonNeg) :
    ((∃ error, computeCurveBuy input = .error error) ↔
      input.quoteIn ≤ 0 ∨ basisPoints ≤ input.totalTaxBps ∨
        input.pricingQuoteReserve ≤ 0 ∨ input.tokenReserve ≤ 0 ∨
          input.tokenReserve ≤ input.reservedTokens) ∧
      ∀ r, computeCurveBuy input = .ok r → input.Charges r := by
  refine ⟨(computeCurveBuy_error_iff hn).trans not_fillable_iff, fun r h => ?_⟩
  have hf := fillable_of_ok h
  rw [computeCurveBuy_eq hn hf] at h
  split at h <;> obtain rfl := Except.ok.inj h
  case isTrue hc => exact charges_clamped hf hc
  case isFalse hc => exact charges_full hf hc

def clampedInput : CurveBuyMathInput where
  quoteIn := 1000
  pricingQuoteReserve := 10
  tokenReserve := 100
  feeBps := 100
  creatorTaxBps := 100
  reservedTokens := 40

theorem computeCurveBuy_exact_clamped :
    ((∃ error, computeCurveBuy clampedInput = .error error) ↔
      clampedInput.quoteIn ≤ 0 ∨ basisPoints ≤ clampedInput.totalTaxBps ∨
        clampedInput.pricingQuoteReserve ≤ 0 ∨ clampedInput.tokenReserve ≤ 0 ∨
          clampedInput.tokenReserve ≤ clampedInput.reservedTokens) ∧
      ∀ r, computeCurveBuy clampedInput = .ok r → clampedInput.Charges r :=
  computeCurveBuy_exact (show clampedInput.NonNeg from ⟨by decide, by decide, by decide⟩)

end CurveBuyMathInput

namespace CurveSellMathInput

variable {input : CurveSellMathInput}

theorem computeCurveSell_ok {r : CurveSellMathResult} (h : computeCurveSell input = .ok r) :
    0 < input.tokensIn ∧ 0 < input.tokenReserve ∧ 0 < input.pricingQuoteReserve ∧
      r.grossQuoteOut =
        ConstantProduct.out input.tokensIn input.tokenReserve input.pricingQuoteReserve := by
  unfold computeCurveSell at h
  split at h
  · cases h
  obtain ⟨gross, hgross, h⟩ := bind_eq_ok.mp h
  obtain ⟨hx, ht, hq⟩ := getAmountOut_ok hgross
  rw [getAmountOut_zero_fee hx ht hq] at hgross
  obtain ⟨fee, -, h⟩ := bind_eq_ok.mp h
  obtain ⟨tax, -, h⟩ := bind_eq_ok.mp h
  obtain rfl := Except.ok.inj h
  exact ⟨hx, ht, hq, (Except.ok.inj hgross).symm⟩

end CurveSellMathInput

end Stunks.Pons
