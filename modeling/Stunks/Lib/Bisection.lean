import Mathlib.Logic.Function.Iterate
import Mathlib.Order.Lattice

namespace Bisection

/-- What a search knows of `limit`. -/
structure Bracket (limit : Nat) where
  good : Nat
  bad : Nat
  good_le : good ≤ limit
  lt_bad : limit < bad

namespace Bracket

variable {limit value : Nat} (b : Bracket limit)

def gap : Nat := b.bad - b.good

def mid : Nat := (b.good + b.bad) / 2

def raise (h : value ≤ limit) : Bracket limit where
  good := max b.good value
  bad := b.bad
  good_le := max_le b.good_le h
  lt_bad := b.lt_bad

def lower (h : limit < value) : Bracket limit where
  good := b.good
  bad := min value b.bad
  good_le := b.good_le
  lt_bad := lt_min h b.lt_bad

theorem good_of_gap (h : b.gap ≤ 1) : b.good = limit := by
  have hgood := b.good_le
  have hbad := b.lt_bad
  unfold gap at h
  omega

theorem bad_of_gap (h : b.gap ≤ 1) : b.bad = limit + 1 := by
  have hgood := b.good_le
  have hbad := b.lt_bad
  unfold gap at h
  omega

theorem mid_of_gap (h : b.gap ≤ 1) : b.mid = limit := by
  unfold mid
  rw [b.good_of_gap h, b.bad_of_gap h]
  omega

theorem good_lt_mid (h : 1 < b.gap) : b.good < b.mid := by
  unfold gap at h
  unfold mid
  omega

theorem mid_lt_bad : b.mid < b.bad := by
  have hgood := b.good_le
  have hbad := b.lt_bad
  unfold mid
  omega

theorem gap_raise_lt (hgap : 1 < b.gap) (hmid : b.mid ≤ value) (h : value ≤ limit) :
    (b.raise h).gap < b.gap := by
  have hgood := b.good_lt_mid hgap
  have hbad := b.lt_bad
  simp only [gap, raise]
  omega

theorem gap_lower_le (hmid : value ≤ b.mid) (h : limit < value) :
    2 * (b.lower h).gap ≤ b.gap := by
  have hgood := b.good_le
  simp only [gap, lower]
  unfold mid at hmid
  omega

theorem gap_pos : 0 < b.gap := Nat.sub_pos_of_lt (b.good_le.trans_lt b.lt_bad)

end Bracket

theorem log2_mono {m n : Nat} (h : m ≤ n) : m.log2 ≤ n.log2 := by
  rcases Nat.eq_zero_or_pos m with rfl | hm
  · exact Nat.zero_le _
  · exact (Nat.le_log2 (by omega)).mpr ((Nat.log2_self_le hm.ne').trans h)

theorem log2_succ_le {m n : Nat} (hm : 0 < m) (h : 2 * m ≤ n) : m.log2 + 1 ≤ n.log2 := by
  rw [Nat.log2_def n, if_pos (by omega)]
  exact Nat.add_le_add_right (log2_mono (by omega)) 1

section Descent

variable {α : Type*} {f : α → α} {μ : α → Nat} {limit : Nat}

theorem exists_iterate_le (x : α)
    (narrows : ∀ n, limit < μ (f^[n] x) → μ (f^[n + 1] x) < μ (f^[n] x)) :
    ∃ n, μ (f^[n] x) ≤ limit := by
  by_contra hover
  push Not at hover
  have hsum : ∀ n, μ (f^[n] x) + n ≤ μ x := by
    intro n
    induction n with
    | zero => exact le_rfl
    | succ n ih =>
      have := narrows n (hover n)
      omega
  have := hsum (μ x + 1)
  omega

end Descent

end Bisection
