import Mathlib.Tactic.Linarith
import Mathlib.Tactic.Ring
import Mathlib.Algebra.Order.BigOperators.Group.List
import Mathlib.Algebra.Order.Group.Int
import Mathlib.Data.List.Permutation

/-! A constant-product pool over the integers whose payout is rounded down.
`q` is the reserve paid into, `t` the reserve paid out of. -/

namespace ConstantProduct

/-- What `x` buys: the exact share `x * t / (q + x)` rounded down. -/
def out (x q t : Int) : Int := x * t / (q + x)

def rest (x q t : Int) : Int := t - out x q t

theorem le_out_iff {x q t y : Int} (h : 0 < q + x) : y ≤ out x q t ↔ y * (q + x) ≤ x * t :=
  Int.le_ediv_iff_mul_le h

theorem out_mul_le {x q t : Int} (h : 0 < q + x) : out x q t * (q + x) ≤ x * t :=
  (le_out_iff h).mp le_rfl

theorem le_out_iff_cross {x q t y : Int} (h : 0 < q + x) :
    y ≤ out x q t ↔ y * q ≤ x * (t - y) := by
  rw [le_out_iff h, mul_add, mul_sub, mul_comm y x, le_sub_iff_add_le]

theorem lt_succ_out_mul {x q t : Int} (h : 0 < q + x) : x * t < (out x q t + 1) * (q + x) :=
  (Int.ediv_lt_iff_lt_mul h).mp (Int.lt_succ (x * t / (q + x)))

theorem out_nonneg {x q t : Int} (hx : 0 ≤ x) (hq : 0 < q) (ht : 0 ≤ t) : 0 ≤ out x q t :=
  (le_out_iff (by omega)).mpr (by simpa using mul_nonneg hx ht)

theorem out_lt {x q t : Int} (hx : 0 ≤ x) (hq : 0 < q) (ht : 0 < t) : out x q t < t := by
  by_contra hle
  have := (le_out_iff (show 0 < q + x by omega)).mp (not_lt.mp hle)
  nlinarith

theorem out_mono {x x' q t : Int} (hx : 0 ≤ x) (hxx : x ≤ x') (hq : 0 < q) (ht : 0 < t) :
    out x q t ≤ out x' q t := by
  have hlt := out_lt hx hq ht
  have hcross := (le_out_iff_cross (show 0 < q + x by omega)).mp (le_refl (out x q t))
  rw [le_out_iff_cross (by omega)]
  exact hcross.trans (mul_le_mul_of_nonneg_right hxx (by omega))

theorem out_mono_reserves {x q q' t t' : Int} (hx : 0 ≤ x) (hq : 0 < q) (hqq : q ≤ q')
    (ht' : 0 ≤ t') (htt : t' ≤ t) : out x q' t' ≤ out x q t := by
  rw [le_out_iff (by omega)]
  have hle := out_mul_le (t := t') (show 0 < q' + x by omega)
  have hnn := out_nonneg hx (show 0 < q' by omega) ht'
  nlinarith

theorem rest_le_iff {x q t z : Int} (h : 0 < q + x) : rest x q t ≤ z ↔ q * t ≤ (q + x) * z := by
  have hiff := le_out_iff (t := t) (y := t - z) h
  have hmul : (t - z) * (q + x) = q * t + x * t - (q + x) * z := by ring
  unfold rest
  constructor
  · intro hz
    have := hiff.mp (by omega)
    omega
  · intro hz
    have := hiff.mpr (by omega)
    omega

theorem product_le {x q t : Int} (h : 0 < q + x) : q * t ≤ (q + x) * rest x q t :=
  (rest_le_iff h).mp le_rfl

theorem rest_mul_lt {x q t : Int} (h : 0 < q + x) : (q + x) * rest x q t < q * t + (q + x) := by
  have := lt_succ_out_mul (t := t) h
  unfold rest
  linarith

theorem rest_pos {x q t : Int} (hx : 0 ≤ x) (hq : 0 < q) (ht : 0 < t) : 0 < rest x q t := by
  have := out_lt hx hq ht
  unfold rest
  omega

theorem rest_le {x q t : Int} (hx : 0 ≤ x) (hq : 0 < q) (ht : 0 ≤ t) : rest x q t ≤ t := by
  have := out_nonneg hx hq ht
  unfold rest
  omega

def restAll (q t : Int) : List Int → Int
  | [] => t
  | x :: xs => restAll (q + x) (rest x q t) xs

@[simp] theorem restAll_nil (q t : Int) : restAll q t [] = t := rfl

theorem restAll_append (q t : Int) (xs ys : List Int) :
    restAll q t (xs ++ ys) = restAll (q + xs.sum) (restAll q t xs) ys := by
  induction xs generalizing q t with
  | nil => simp
  | cons x xs ih => simp only [List.cons_append, restAll, ih, List.sum_cons, add_assoc]

theorem add_sum_pos {q : Int} {xs : List Int} (hq : 0 < q) (hxs : ∀ x ∈ xs, 0 ≤ x) :
    0 < q + xs.sum := by
  have := List.sum_nonneg hxs
  omega

theorem restAll_pos {q t : Int} {xs : List Int} (hxs : ∀ x ∈ xs, 0 ≤ x) (hq : 0 < q)
    (ht : 0 < t) : 0 < restAll q t xs := by
  induction xs generalizing q t with
  | nil => exact ht
  | cons x xs ih =>
    have hx := hxs x List.mem_cons_self
    exact ih (fun y hy => hxs y (List.mem_cons_of_mem _ hy)) (by omega) (rest_pos hx hq ht)

theorem restAll_le {q t : Int} {xs : List Int} (hxs : ∀ x ∈ xs, 0 ≤ x) (hq : 0 < q)
    (ht : 0 < t) : restAll q t xs ≤ t := by
  induction xs generalizing q t with
  | nil => exact le_rfl
  | cons x xs ih =>
    have hx := hxs x List.mem_cons_self
    calc restAll (q + x) (rest x q t) xs ≤ rest x q t :=
          ih (fun y hy => hxs y (List.mem_cons_of_mem _ hy)) (by omega) (rest_pos hx hq ht)
      _ ≤ t := rest_le hx hq ht.le

theorem product_le_restAll {q t : Int} {xs : List Int} (hxs : ∀ x ∈ xs, 0 ≤ x) (hq : 0 < q) :
    q * t ≤ (q + xs.sum) * restAll q t xs := by
  induction xs generalizing q t with
  | nil => simp
  | cons x xs ih =>
    have hx : 0 < q + x := by have := hxs x List.mem_cons_self; omega
    calc q * t ≤ (q + x) * rest x q t := product_le hx
      _ ≤ (q + x + xs.sum) * restAll (q + x) (rest x q t) xs :=
          ih (fun y hy => hxs y (List.mem_cons_of_mem _ hy)) hx
      _ = (q + (x :: xs).sum) * restAll q t (x :: xs) := by rw [List.sum_cons, add_assoc]; rfl

theorem restAll_mul_lt {q t x : Int} {xs : List Int} (hx : 0 ≤ x) (hxs : ∀ y ∈ xs, 0 ≤ y)
    (hq : 0 < q) :
    (q + (x :: xs).sum) * restAll q t (x :: xs) <
      q * t + (x :: xs).length * (q + (x :: xs).sum) := by
  induction xs generalizing q t x with
  | nil =>
    have := rest_mul_lt (t := t) (show 0 < q + x by omega)
    simpa [restAll] using this
  | cons y ys ih =>
    have hy := hxs y List.mem_cons_self
    have hys := fun z hz => hxs z (List.mem_cons_of_mem _ hz)
    have hlater := ih (t := rest x q t) hy hys (show 0 < q + x by omega)
    have hfirst := rest_mul_lt (t := t) (show 0 < q + x by omega)
    have hsum := List.sum_nonneg hxs
    rw [List.sum_cons, restAll, ← add_assoc, List.length_cons]
    push_cast
    linarith

/-- What two orders of the same payments leave differs by less than one unit a payment. -/
theorem restAll_lt_of_perm {q t : Int} {xs ys : List Int} (hne : xs ≠ []) (hperm : xs.Perm ys)
    (hxs : ∀ x ∈ xs, 0 ≤ x) (hq : 0 < q) : restAll q t xs < restAll q t ys + xs.length := by
  obtain ⟨x, xs, rfl⟩ := List.exists_cons_of_ne_nil hne
  have hpos := add_sum_pos hq hxs
  have hupper := restAll_mul_lt (t := t) (hxs x List.mem_cons_self)
    (fun y hy => hxs y (List.mem_cons_of_mem _ hy)) hq
  have hlower := product_le_restAll (t := t) (fun y hy => hxs y (hperm.mem_iff.mpr hy)) hq
  rw [← hperm.sum_eq] at hlower
  refine lt_of_mul_lt_mul_left ?_ hpos.le
  calc (q + (x :: xs).sum) * restAll q t (x :: xs)
      < q * t + (x :: xs).length * (q + (x :: xs).sum) := hupper
    _ ≤ (q + (x :: xs).sum) * restAll q t ys + (x :: xs).length * (q + (x :: xs).sum) :=
        Int.add_le_add_right hlower _
    _ = (q + (x :: xs).sum) * (restAll q t ys + (x :: xs).length) := by ring

/-- The least that any order of the payments leaves: rounding makes it depend on the order. -/
def lowest (q t : Int) (xs : List Int) : Int := ((xs.permutations.map (restAll q t)).min?).getD t

theorem lowest_spec (q t : Int) (xs : List Int) :
    (∃ ys, ys.Perm xs ∧ restAll q t ys = lowest q t xs) ∧
      ∀ ys, ys.Perm xs → lowest q t xs ≤ restAll q t ys := by
  have hne : xs.permutations.map (restAll q t) ≠ [] := by
    simpa using List.ne_nil_of_mem (List.mem_permutations.mpr (List.Perm.refl xs))
  obtain ⟨z, hz⟩ := Option.ne_none_iff_exists'.mp (mt List.min?_eq_none_iff.mp hne)
  obtain ⟨hmem, hle⟩ := List.min?_eq_some_iff.mp hz
  obtain ⟨ys, hys, heq⟩ := List.mem_map.mp hmem
  have hlow : lowest q t xs = z := by rw [lowest, hz, Option.getD_some]
  refine ⟨⟨ys, List.mem_permutations.mp hys, heq.trans hlow.symm⟩, fun zs hzs => ?_⟩
  rw [hlow]
  exact hle _ (List.mem_map_of_mem (List.mem_permutations.mpr hzs))

end ConstantProduct
