import Stunks.Lib.Floors
import Stunks.Utils.Money

/-! `pricing.ts`: price and market cap. -/

namespace Stunks.Indexer

open Utils

def priceScale : Int := 10 ^ 27

def priceFromTrade (quoteAmount tokenAmount : Int) : Except JsError Int :=
  if tokenAmount ≤ 0 then .ok 0
  else if quoteAmount ≤ 0 then .ok 0
  else mulDiv quoteAmount priceScale tokenAmount

def priceFromReserves (pricingQuoteReserve tokenReserve : Int) : Except JsError Int :=
  if tokenReserve ≤ 0 then .ok 0 else mulDiv pricingQuoteReserve priceScale tokenReserve

def marketCapFromPrice (price totalSupply : Int) : Except JsError Int :=
  if price ≤ 0 ∨ totalSupply ≤ 0 then .ok 0 else mulDiv price totalSupply priceScale

theorem mulDiv_ne_zero (x y : Int) {d : Int} (h : d ≠ 0) : mulDiv x y d = .ok ((x * y).tdiv d) := by
  rw [mulDiv, if_neg h, divide, if_neg h]

theorem priceFromReserves_ok (pricingQuoteReserve tokenReserve : Int) :
    ∃ price, priceFromReserves pricingQuoteReserve tokenReserve = .ok price := by
  unfold priceFromReserves
  split
  · exact ⟨0, rfl⟩
  · exact ⟨_, mulDiv_ne_zero _ _ (by omega)⟩

theorem priceFromTrade_ok (quoteAmount tokenAmount : Int) :
    ∃ price, priceFromTrade quoteAmount tokenAmount = .ok price := by
  unfold priceFromTrade
  split
  · exact ⟨0, rfl⟩
  · split
    · exact ⟨0, rfl⟩
    · exact ⟨_, mulDiv_ne_zero _ _ (by omega)⟩

theorem marketCapFromPrice_ok (price totalSupply : Int) :
    ∃ marketCap, marketCapFromPrice price totalSupply = .ok marketCap := by
  unfold marketCapFromPrice
  split
  · exact ⟨0, rfl⟩
  · exact ⟨_, mulDiv_ne_zero _ _ (by decide)⟩

theorem priceFromTrade_of_pos {quoteAmount tokenAmount : Int} (hquote : 0 < quoteAmount)
    (htoken : 0 < tokenAmount) :
    priceFromTrade quoteAmount tokenAmount = .ok (quoteAmount * priceScale / tokenAmount) := by
  have hprod : 0 ≤ quoteAmount * priceScale := mul_nonneg hquote.le (by decide)
  rw [priceFromTrade, if_neg (not_le.mpr htoken), if_neg (not_le.mpr hquote),
    mulDiv_ne_zero _ _ htoken.ne', Int.tdiv_eq_ediv_of_nonneg hprod]

theorem marketCapFromPrice_of_nonneg {price totalSupply : Int} (hprice : 0 ≤ price)
    (hsupply : 0 < totalSupply) :
    marketCapFromPrice price totalSupply = .ok (price * totalSupply / priceScale) := by
  by_cases hzero : price = 0
  · subst hzero
    rw [marketCapFromPrice, if_pos (.inl le_rfl), zero_mul, Int.zero_ediv]
  · rw [marketCapFromPrice, if_neg (by omega), mulDiv_ne_zero _ _ (by decide),
      Int.tdiv_eq_ediv_of_nonneg (mul_nonneg hprice hsupply.le)]

section Settled

variable {q t s : Int}

theorem marketCap_of_trade (hq : 0 < q) (ht : 0 < t) (hs : 0 < s) :
    priceFromTrade q t = .ok (q * priceScale / t) ∧
      marketCapFromPrice (q * priceScale / t) s = .ok (q * priceScale / t * s / priceScale) := by
  have hprice : 0 ≤ q * priceScale / t :=
    Int.ediv_nonneg (mul_nonneg hq.le (by decide)) ht.le
  exact ⟨priceFromTrade_of_pos hq ht, marketCapFromPrice_of_nonneg hprice hs⟩

/-- The market cap of the last trade is never above the exact one, short of it by at most the
supply over the scale, and ordered as the trades' rates are. -/
theorem marketCap_bounds (hq : 0 < q) (ht : 0 < t) (hs : 0 < s) :
    ∃ price marketCap, priceFromTrade q t = .ok price ∧
      marketCapFromPrice price s = .ok marketCap ∧
      marketCap ≤ q * s / t ∧
      q * s / t ≤ marketCap + (s + priceScale - 1) / priceScale ∧
      (s ≤ 10 ^ 27 → q * s / t ≤ marketCap + 1) ∧
      ∀ q' t', 0 < q' → 0 < t' → q * t' ≤ q' * t →
        ∃ price' marketCap', priceFromTrade q' t' = .ok price' ∧
          marketCapFromPrice price' s = .ok marketCap' ∧ price ≤ price' ∧
          marketCap ≤ marketCap' := by
  have hscale : 0 < priceScale := by decide
  obtain ⟨hprice, hcap⟩ := marketCap_of_trade hq ht hs
  have hlost := Floors.le_nested_add q s hscale ht hs
  refine ⟨_, _, hprice, hcap, Floors.nested_le q s hscale ht hs.le, hlost, fun hsmall => ?_,
    fun q' t' hq' ht' hrate => ?_⟩
  · have hone : (s + priceScale - 1) / priceScale = 1 := by
      unfold priceScale at *
      omega
    rwa [hone] at hlost
  · obtain ⟨hprice', hcap'⟩ := marketCap_of_trade hq' ht' hs
    have hle : q * priceScale / t ≤ q' * priceScale / t' := by
      refine Floors.ediv_le_ediv_of_cross ht ht' ?_
      calc q * priceScale * t' = q * t' * priceScale := by ring
        _ ≤ q' * t * priceScale := mul_le_mul_of_nonneg_right hrate hscale.le
        _ = q' * priceScale * t := by ring
    exact ⟨_, _, hprice', hcap', hle,
      Int.ediv_le_ediv hscale (mul_le_mul_of_nonneg_right hle hs.le)⟩

theorem marketCap_bounds_lowDecimals :
    ∃ price marketCap, priceFromTrade 2823 540440857263784622848790 = .ok price ∧
      marketCapFromPrice price (10 ^ 27) = .ok marketCap ∧
      marketCap ≤ 2823 * 10 ^ 27 / 540440857263784622848790 ∧
      2823 * 10 ^ 27 / 540440857263784622848790 ≤
        marketCap + (10 ^ 27 + priceScale - 1) / priceScale ∧
      ((10 : Int) ^ 27 ≤ 10 ^ 27 → 2823 * 10 ^ 27 / 540440857263784622848790 ≤ marketCap + 1) ∧
      ∀ q' t', 0 < q' → 0 < t' → 2823 * t' ≤ q' * 540440857263784622848790 →
        ∃ price' marketCap', priceFromTrade q' t' = .ok price' ∧
          marketCapFromPrice price' (10 ^ 27) = .ok marketCap' ∧ price ≤ price' ∧
          marketCap ≤ marketCap' :=
  marketCap_bounds (by decide) (by decide) (by decide)

end Settled

end Stunks.Indexer
