import Mathlib.Algebra.Order.Group.Int
import Mathlib.Tactic.Linarith
import Mathlib.Tactic.Ring

namespace Floors

theorem ediv_le_ediv_of_cross {a b c d : Int} (hb : 0 < b) (hd : 0 < d) (h : a * d ≤ c * b) :
    a / b ≤ c / d := by
  rw [Int.le_ediv_iff_mul_le hd]
  have hfloor := Int.ediv_mul_le a hb.ne'
  refine le_of_mul_le_mul_right ?_ hb
  calc a / b * d * b = a / b * b * d := by ring
    _ ≤ a * d := mul_le_mul_of_nonneg_right hfloor hd.le
    _ ≤ c * b := h

theorem lt_succ_ediv_mul (a : Int) {b : Int} (hb : 0 < b) : a < (a / b + 1) * b :=
  (Int.ediv_lt_iff_lt_mul hb).mp (by omega)

theorem le_ceil_mul (a : Int) {b : Int} (hb : 0 < b) : a ≤ (a + b - 1) / b * b := by
  have := lt_succ_ediv_mul (a + b - 1) hb
  linarith

section Nested

variable {scale t : Int} (q s : Int)

theorem nested_le (hscale : 0 < scale) (ht : 0 < t) (hs : 0 ≤ s) :
    q * scale / t * s / scale ≤ q * s / t := by
  refine ediv_le_ediv_of_cross hscale ht ?_
  have hfloor := Int.ediv_mul_le (q * scale) ht.ne'
  calc q * scale / t * s * t = q * scale / t * t * s := by ring
    _ ≤ q * scale * s := mul_le_mul_of_nonneg_right hfloor hs
    _ = q * s * scale := by ring

theorem le_nested_add (hscale : 0 < scale) (ht : 0 < t) (hs : 0 < s) :
    q * s / t ≤ q * scale / t * s / scale + (s + scale - 1) / scale := by
  let p := q * scale / t
  have hexact : q * s / t * scale < (p + 1) * s := by
    refine lt_of_mul_lt_mul_right ?_ ht.le
    calc q * s / t * scale * t = q * s / t * t * scale := by ring
      _ ≤ q * s * scale := mul_le_mul_of_nonneg_right (Int.ediv_mul_le _ ht.ne') hscale.le
      _ = q * scale * s := by ring
      _ < (p + 1) * t * s := mul_lt_mul_of_pos_right (lt_succ_ediv_mul _ ht) hs
      _ = (p + 1) * s * t := by ring
  have hinner : p * s < (p * s / scale + 1) * scale := lt_succ_ediv_mul _ hscale
  have hceil := le_ceil_mul s hscale
  have hsum : q * s / t * scale < (p * s / scale + (s + scale - 1) / scale + 1) * scale := by
    linarith
  exact Int.lt_add_one_iff.mp (lt_of_mul_lt_mul_right hsum hscale.le)

end Nested

end Floors
