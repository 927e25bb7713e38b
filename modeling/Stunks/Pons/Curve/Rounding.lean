import Stunks.Pons.Curve.Math
import Mathlib.Data.Rat.Floor
import Mathlib.Tactic.FieldSimp

namespace Stunks.Pons

open Utils

/-- `x` is quoted at least `y`, and nothing two units below it is. -/
structure Reaches (q t fee y x : Int) : Prop where
  pos : 0 < x
  enough : Returns (y ≤ ·) (getAmountOut x q t fee)
  least : ∀ x', 0 < x' → x' ≤ x - 2 → Returns (· < y) (getAmountOut x' q t fee)

section Fee

variable {q t fee : Int} (hq : 0 < q) (ht : 0 < t) (hfees : fee < basisPoints)
include hq ht hfees

theorem getAmountOut_eq {x : Int} (hx : 0 < x) :
    getAmountOut x q t fee =
      .ok (ConstantProduct.out (x * (basisPoints - fee)) (q * basisPoints) t) := by
  rw [getAmountOut, if_neg (by omega), if_neg (by omega)]
  have hpaid : 0 < x * (basisPoints - fee) := mul_pos hx (by omega)
  exact divide_of_nonneg (mul_nonneg hpaid.le ht.le)
    (add_pos (mul_pos hq (by decide)) hpaid)

theorem getAmountOut_ge_iff {x y : Int} (hx : 0 < x) :
    Returns (y ≤ ·) (getAmountOut x q t fee) ↔
      y * q * basisPoints ≤ x * ((t - y) * (basisPoints - fee)) := by
  have hpaid : 0 < x * (basisPoints - fee) := mul_pos hx (by omega)
  have hscaled : 0 < q * basisPoints := mul_pos hq (by decide)
  rw [getAmountOut_eq hq ht hfees hx]
  have hcross := ConstantProduct.le_out_iff_cross (t := t) (y := y) (add_pos hscaled hpaid)
  rw [show x * (basisPoints - fee) * (t - y) = x * ((t - y) * (basisPoints - fee)) by ring,
    ← mul_assoc] at hcross
  rw [← hcross]
  exact ⟨fun ⟨out, hout, h⟩ => Except.ok.inj hout ▸ h, fun h => ⟨_, rfl, h⟩⟩

theorem getAmountOut_lt_iff {x y : Int} (hx : 0 < x) :
    Returns (· < y) (getAmountOut x q t fee) ↔
      x * ((t - y) * (basisPoints - fee)) < y * q * basisPoints := by
  rw [← not_le, ← getAmountOut_ge_iff hq ht hfees hx, getAmountOut_eq hq ht hfees hx]
  constructor
  · rintro ⟨out, hout, h⟩ ⟨out', hout', h'⟩
    obtain rfl := Except.ok.inj (hout.symm.trans hout')
    exact absurd h (not_lt.mpr h')
  · exact fun h => ⟨_, rfl, not_le.mp fun hle => h ⟨_, rfl, hle⟩⟩

omit ht in
theorem getAmountIn_eq {y : Int} (hy : 0 < y) (hyt : y < t) :
    getAmountIn y q t fee =
      .ok (y * q * basisPoints / ((t - y) * (basisPoints - fee)) + 1) := by
  rw [getAmountIn, if_neg (by omega), if_neg (by omega), if_neg (by omega)]
  have hnum : 0 ≤ y * q * basisPoints := mul_nonneg (mul_pos hy hq).le (by decide)
  simp only [divide_of_nonneg hnum (mul_pos (by omega : 0 < t - y)
    (by omega : 0 < basisPoints - fee)), ok_bind]
  rfl

theorem getAmountIn_reaches {y : Int} (hy : 0 < y) (hyt : y < t) :
    Returns (Reaches q t fee y) (getAmountIn y q t fee) := by
  rw [getAmountIn_eq hq hfees hy hyt]
  have hden : 0 < (t - y) * (basisPoints - fee) := mul_pos (by omega) (by omega)
  have hnum : 0 ≤ y * q * basisPoints := mul_nonneg (mul_pos hy hq).le (by decide)
  have hfloor := Int.ediv_nonneg hnum hden.le
  refine .ok ⟨by omega, ?_, fun x' hx' hle => ?_⟩
  · rw [getAmountOut_ge_iff hq ht hfees (by omega)]
    exact (Floors.lt_succ_ediv_mul _ hden).le
  · rw [getAmountOut_lt_iff hq ht hfees hx']
    -- two units below, the exact input is missed by more than the rounding
    calc x' * ((t - y) * (basisPoints - fee))
        ≤ (y * q * basisPoints / ((t - y) * (basisPoints - fee)) - 1) *
            ((t - y) * (basisPoints - fee)) := mul_le_mul_of_nonneg_right (by omega) hden.le
      _ < y * q * basisPoints / ((t - y) * (basisPoints - fee)) *
            ((t - y) * (basisPoints - fee)) := mul_lt_mul_of_pos_right (by omega) hden
      _ ≤ y * q * basisPoints := Int.ediv_mul_le _ hden.ne'

theorem getAmountOut_mono {x x' : Int} (hx : 0 < x) (hxx : x ≤ x') :
    ∃ out out', getAmountOut x q t fee = .ok out ∧ getAmountOut x' q t fee = .ok out' ∧
      out ≤ out' ∧ out' < t := by
  have hkept : 0 < basisPoints - fee := by omega
  have hscaled : 0 < q * basisPoints := mul_pos hq (by decide)
  have hx' := hx.trans_le hxx
  refine ⟨_, _, getAmountOut_eq hq ht hfees hx, getAmountOut_eq hq ht hfees hx', ?_, ?_⟩
  · exact ConstantProduct.out_mono (mul_pos hx hkept).le
      (mul_le_mul_of_nonneg_right hxx hkept.le) hscaled ht
  · exact ConstantProduct.out_lt (mul_pos hx' hkept).le hscaled ht

/-- `getAmountIn` is enough, and at most one unit more than enough; and a quote grows with what
is paid, short of the reserve. -/
theorem getAmountIn_least :
    (∀ y, 0 < y → y < t → Returns (Reaches q t fee y) (getAmountIn y q t fee)) ∧
      ∀ x x', 0 < x → x ≤ x' → ∃ out out', getAmountOut x q t fee = .ok out ∧
        getAmountOut x' q t fee = .ok out' ∧ out ≤ out' ∧ out' < t :=
  ⟨fun _ => getAmountIn_reaches hq ht hfees, fun _ _ => getAmountOut_mono hq ht hfees⟩

end Fee

/-- Where the division is exact one unit less is already enough. -/
theorem getAmountIn_least_exact : getAmountIn 1 30 4 0 = .ok 11 ∧
    getAmountOut 10 30 4 0 = .ok 1 ∧ Returns (Reaches 30 4 0 1) (getAmountIn 1 30 4 0) :=
  ⟨rfl, rfl, (getAmountIn_least (by decide) (by decide) (by decide)).1 1 (by decide) (by decide)⟩

section Impact

variable {x q t : Int} (hx : 0 < x) (hq : 0 < q) (ht : 0 < t)
  (hout : quoteAmountOut x q t 0 ≠ 0)
include hx hq ht hout

/-- No impact is understated: its rounding and that of the output go the same way. -/
theorem mul_basisPoints_lt_impact : x * basisPoints < (computePriceImpactBps x q t + 1) * q := by
  rw [quoteAmountOut_zero_fee hx hq ht] at hout
  obtain ⟨hspot, habove, heq⟩ := computePriceImpactBps_eq hx hq ht hout
  have hpos := pos_of_mul_pos_right hspot hq.le
  refine lt_of_mul_lt_mul_right ?_ hpos.le
  calc x * basisPoints * ConstantProduct.out x q t
      = x * ConstantProduct.out x q t * basisPoints := by ring
    _ ≤ (x * t - q * ConstantProduct.out x q t) * basisPoints :=
        mul_le_mul_of_nonneg_right habove (by decide)
    _ < (computePriceImpactBps x q t + 1) * (q * ConstantProduct.out x q t) := by
        rw [heq]
        exact Floors.lt_succ_ediv_mul _ hspot
    _ = (computePriceImpactBps x q t + 1) * q * ConstantProduct.out x q t := by ring

theorem impact_mul_lt : computePriceImpactBps x q t * (q * quoteAmountOut x q t 0) <
    (x * quoteAmountOut x q t 0 + (q + x)) * basisPoints := by
  rw [quoteAmountOut_zero_fee hx hq ht] at hout ⊢
  obtain ⟨hspot, -, heq⟩ := computePriceImpactBps_eq hx hq ht hout
  have hunit := ConstantProduct.lt_succ_out_mul (t := t) (show 0 < q + x by omega)
  calc computePriceImpactBps x q t * (q * ConstantProduct.out x q t)
      ≤ (x * t - q * ConstantProduct.out x q t) * basisPoints := by
        rw [heq]
        exact Int.ediv_mul_le _ hspot.ne'
    _ < (x * ConstantProduct.out x q t + (q + x)) * basisPoints :=
        mul_lt_mul_of_pos_right (by linarith) (by decide)

/-- The impact lies between the exact one and one output unit more. -/
theorem computePriceImpactBps_between :
    ⌊(x : ℚ) * 10000 / q⌋ ≤ computePriceImpactBps x q t ∧
      (computePriceImpactBps x q t : ℚ) <
        10000 * ((x : ℚ) / q + (1 + (x : ℚ) / q) / quoteAmountOut x q t 0) := by
  have hqpos : (0 : ℚ) < q := by exact_mod_cast hq
  constructor
  · have hlt : (x : ℚ) * 10000 < (computePriceImpactBps x q t + 1) * q := by
      exact_mod_cast mul_basisPoints_lt_impact hx hq ht hout
    rw [Int.floor_le_iff, div_lt_iff₀ hqpos]
    exact hlt
  · have hpos : (0 : ℚ) < quoteAmountOut x q t 0 := by
      rw [quoteAmountOut_zero_fee hx hq ht] at hout ⊢
      exact_mod_cast lt_of_le_of_ne (ConstantProduct.out_nonneg hx.le hq ht.le) (Ne.symm hout)
    have hlt : (computePriceImpactBps x q t : ℚ) * (q * quoteAmountOut x q t 0) <
        (x * quoteAmountOut x q t 0 + (q + x)) * 10000 := by
      exact_mod_cast impact_mul_lt hx hq ht hout
    calc (computePriceImpactBps x q t : ℚ)
        < (x * quoteAmountOut x q t 0 + (q + x)) * 10000 / (q * quoteAmountOut x q t 0) :=
          (lt_div_iff₀ (mul_pos hqpos hpos)).mpr hlt
      _ = 10000 * ((x : ℚ) / q + (1 + (x : ℚ) / q) / quoteAmountOut x q t 0) := by
          field_simp

end Impact

/-- A fill of two units, reported at more than twice its impact. -/
theorem computePriceImpactBps_between_unit :
    ⌊((3 : Int) : ℚ) * 10000 / (7 : Int)⌋ ≤ computePriceImpactBps 3 7 9 ∧
      (computePriceImpactBps 3 7 9 : ℚ) < 10000 * (((3 : Int) : ℚ) / (7 : Int) +
        (1 + ((3 : Int) : ℚ) / (7 : Int)) / quoteAmountOut 3 7 9 0) :=
  computePriceImpactBps_between (by decide) (by decide) (by decide) (by decide)

end Stunks.Pons
