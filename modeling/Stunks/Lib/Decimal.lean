import Mathlib.Data.List.DropRight
import Mathlib.Tactic.Ring
import Mathlib.Tactic.Linarith
import Mathlib.Algebra.GroupWithZero.Nat

namespace Decimal

abbrev ofDigits (ds : List Char) : Nat := Nat.ofDigitChars 10 ds 0

theorem ofDigits_append (xs ys : List Char) :
    ofDigits (xs ++ ys) = 10 ^ ys.length * ofDigits xs + ofDigits ys := by
  rw [ofDigits, Nat.ofDigitChars_append, Nat.ofDigitChars_eq_ofDigitChars_zero]

theorem ofDigits_cons (c : Char) (ds : List Char) :
    ofDigits (c :: ds) = 10 ^ ds.length * (c.toNat - '0'.toNat) + ofDigits ds := by
  have h := ofDigits_append [c] ds
  rwa [List.singleton_append, show ofDigits [c] = c.toNat - '0'.toNat by
    simp [ofDigits, Nat.ofDigitChars_cons]] at h

@[simp] theorem ofDigits_leftpad (n : Nat) (ds : List Char) :
    ofDigits (ds.leftpad n '0') = ofDigits ds := by
  rw [List.leftpad, ofDigits, Nat.ofDigitChars_append, Nat.ofDigitChars_replicate_zero, mul_zero]

theorem digit_le {c : Char} (h : c.isDigit) : c.toNat - '0'.toNat ≤ 9 := by
  have := Char.isDigit_iff_toNat.mp h
  simp only [Char.isValue, Char.reduceToNat] at this ⊢
  omega

theorem ofDigits_lt {ds : List Char} (h : ∀ c ∈ ds, c.isDigit) : ofDigits ds < 10 ^ ds.length := by
  induction ds with
  | nil => simp [ofDigits]
  | cons c ds ih =>
    have htail := ih fun d hd => h d (List.mem_cons_of_mem _ hd)
    have hle : 10 ^ ds.length * (c.toNat - '0'.toNat) ≤ 10 ^ ds.length * 9 :=
      Nat.mul_le_mul_left _ (digit_le (h c List.mem_cons_self))
    rw [ofDigits_cons, List.length_cons, pow_succ]
    omega

theorem digit_inj {c d : Char} (hc : c.isDigit) (hd : d.isDigit)
    (h : c.toNat - '0'.toNat = d.toNat - '0'.toNat) : c = d := by
  have hc := Char.isDigit_iff_toNat.mp hc
  have hd := Char.isDigit_iff_toNat.mp hd
  exact Char.toNat_inj.mp (by simp only [Char.isValue, Char.reduceToNat] at *; omega)

theorem ofDigits_inj {xs ys : List Char} (hxs : ∀ c ∈ xs, c.isDigit) (hys : ∀ c ∈ ys, c.isDigit)
    (hlen : xs.length = ys.length) (h : ofDigits xs = ofDigits ys) : xs = ys := by
  induction xs generalizing ys with
  | nil => exact (List.length_eq_zero_iff.mp hlen.symm).symm
  | cons x xs ih =>
    cases ys with
    | nil => cases hlen
    | cons y ys =>
      obtain ⟨hx, hxs⟩ := List.forall_mem_cons.mp hxs
      obtain ⟨hy, hys⟩ := List.forall_mem_cons.mp hys
      have hlen : xs.length = ys.length := Nat.succ.inj hlen
      rw [ofDigits_cons, ofDigits_cons, hlen] at h
      have hltx := ofDigits_lt hxs
      have hlty := ofDigits_lt hys
      rw [hlen] at hltx
      have hpos : 0 < 10 ^ ys.length := Nat.pow_pos (by decide)
      have hhead : x.toNat - '0'.toNat = y.toNat - '0'.toNat := by
        have := congrArg (· / 10 ^ ys.length) h
        simpa [Nat.mul_add_div hpos, Nat.div_eq_of_lt hltx, Nat.div_eq_of_lt hlty] using this
      rw [hhead] at h
      rw [digit_inj hx hy hhead, ih hxs hys hlen (Nat.add_left_cancel h)]

theorem isDigit_toDigits (n : Nat) : ∀ c ∈ Nat.toDigits 10 n, c.isDigit :=
  fun _ hc => Nat.isDigit_of_mem_toDigits (by decide) (by decide) hc

theorem toDigits_lead (n : Nat) (h : (Nat.toDigits 10 n).head? = some '0') :
    Nat.toDigits 10 n = ['0'] := by
  induction n using Nat.strongRecOn with
  | ind n ih =>
    rw [Nat.toDigits_eq_if (by decide)] at h ⊢
    split at h
    · rename_i hlt
      rw [if_pos hlt]
      simpa using h
    · rename_i hge
      have hdiv : n / 10 < n := Nat.div_lt_self (by omega) (by decide)
      rw [List.head?_append_of_ne_nil _ Nat.toDigits_ne_nil] at h
      have hzero := congrArg ofDigits (ih _ hdiv h)
      rw [ofDigits, Nat.ofDigitChars_ten_toDigits] at hzero
      have : ofDigits ['0'] = 0 := by decide
      omega

theorem pow_le_ofDigits {c : Char} (ds : List Char) (hc : c.isDigit) (h : c ≠ '0') :
    10 ^ ds.length ≤ ofDigits (c :: ds) := by
  have hpos : 1 ≤ c.toNat - '0'.toNat := by
    by_contra hzero
    refine h (digit_inj hc (by decide) ?_)
    simp only [Char.isValue, Char.reduceToNat] at *
    omega
  have := Nat.mul_le_mul_left (10 ^ ds.length) hpos
  rw [ofDigits_cons]
  omega

theorem toDigits_ofDigits {ds : List Char} (hds : ∀ c ∈ ds, c.isDigit) (hne : ds ≠ [])
    (hlead : ds.head? = some '0' → ds = ['0']) : Nat.toDigits 10 (ofDigits ds) = ds := by
  obtain ⟨c, cs, rfl⟩ := List.exists_cons_of_ne_nil hne
  by_cases hc : c = '0'
  · rw [hlead (by rw [hc]; rfl)]
    decide
  · refine ofDigits_inj (isDigit_toDigits _) hds ?_ Nat.ofDigitChars_ten_toDigits
    have hlow := pow_le_ofDigits cs (hds c List.mem_cons_self) hc
    have hle := (Nat.length_toDigits_le_iff (by decide) (Nat.succ_pos cs.length)).mpr
      (ofDigits_lt hds)
    refine le_antisymm hle (Nat.succ_le_of_lt ?_)
    by_contra hge
    rcases Nat.eq_zero_or_pos cs.length with hzero | hpos
    · have := Nat.length_toDigits_pos (b := 10) (n := ofDigits (c :: cs))
      omega
    · have := (Nat.length_toDigits_le_iff (by decide) hpos).mp (not_lt.mp hge)
      omega

end Decimal

/-- A decimal numeral without redundant zeros, and without a sign on zero. -/
@[ext] structure Decimal where
  negative : Bool
  whole : List Char
  fraction : List Char
  whole_digits : ∀ c ∈ whole, c.isDigit
  whole_ne : whole ≠ []
  whole_lead : whole.head? = some '0' → whole = ['0']
  fraction_digits : ∀ c ∈ fraction, c.isDigit
  fraction_last : fraction.getLast? ≠ some '0'
  nonzero : negative = true → ¬(whole = ['0'] ∧ fraction = [])

namespace Decimal

def sign (n : Decimal) : List Char := if n.negative then ['-'] else []

def unsigned (n : Decimal) : List Char :=
  if n.fraction = [] then n.whole else n.whole ++ '.' :: n.fraction

def text (n : Decimal) : List Char := n.sign ++ n.unsigned

def scaled (d : Nat) (fraction : List Char) : List Char := (fraction.take d).rightpad d '0'

def magnitude (n : Decimal) (d : Nat) : Nat := ofDigits (n.whole ++ scaled d n.fraction)

def value (n : Decimal) (d : Nat) : Int :=
  if n.negative then -(n.magnitude d : Int) else n.magnitude d

@[simp] theorem length_scaled (d : Nat) (fraction : List Char) :
    (scaled d fraction).length = d := by
  simp [scaled]

theorem isDigit_scaled {d : Nat} {fraction : List Char} (h : ∀ c ∈ fraction, c.isDigit) :
    ∀ c ∈ scaled d fraction, c.isDigit := by
  intro c hc
  rw [scaled, List.rightpad, List.mem_append] at hc
  rcases hc with hc | hc
  · exact h c (List.mem_of_mem_take hc)
  · rw [List.eq_of_mem_replicate hc]
    decide

theorem scaled_rdropWhile {d : Nat} {ds : List Char} (h : ds.length = d) :
    scaled d (ds.rdropWhile (· = '0')) = ds := by
  have happend := List.rdropWhile_append_rtakeWhile (p := fun c : Char => (c = '0' : Bool)) (l := ds)
  have hlen : (ds.rdropWhile (· = '0')).length + (ds.rtakeWhile (· = '0')).length = d := by
    rw [← List.length_append, happend, h]
  rw [scaled, List.take_of_length_le (by omega), List.rightpad]
  conv_rhs => rw [← happend]
  congr 1
  refine (List.eq_replicate_iff.mpr ⟨by omega, fun c hc => ?_⟩).symm
  simpa using List.mem_rtakeWhile_imp hc

theorem magnitude_eq (n : Decimal) (d : Nat) :
    n.magnitude d = 10 ^ d * ofDigits n.whole + ofDigits (scaled d n.fraction) := by
  rw [magnitude, ofDigits_append, length_scaled]

def fractionOf (magnitude d : Nat) : List Char :=
  ((Nat.toDigits 10 (magnitude % 10 ^ d)).leftpad d '0').rdropWhile (· = '0')

theorem isDigit_fractionOf (magnitude d : Nat) : ∀ c ∈ fractionOf magnitude d, c.isDigit := by
  intro c hc
  have hmem := (List.rdropWhile_prefix _ _).subset hc
  rw [List.leftpad, List.mem_append] at hmem
  rcases hmem with hmem | hmem
  · rw [List.eq_of_mem_replicate hmem]
    decide
  · exact isDigit_toDigits _ c hmem

theorem rdropWhile_last (ds : List Char) : (ds.rdropWhile (· = '0')).getLast? ≠ some '0' := by
  intro h
  obtain ⟨hne, hlast⟩ := List.mem_getLast?_eq_getLast h
  have hnot := List.rdropWhile_last_not (fun c : Char => (c = '0' : Bool)) ds hne
  rw [← hlast] at hnot
  simp at hnot

theorem ofDigits_scaled_fractionOf (magnitude d : Nat) :
    ofDigits (scaled d (fractionOf magnitude d)) = magnitude % 10 ^ d := by
  rcases Nat.eq_zero_or_pos d with rfl | hd
  · simp [scaled, List.rightpad, Nat.mod_one]
  · have hlt : magnitude % 10 ^ d < 10 ^ d := Nat.mod_lt _ (Nat.pow_pos (by decide))
    have hlen := (Nat.length_toDigits_le_iff (by decide) hd).mpr hlt
    rw [fractionOf, scaled_rdropWhile (by rw [List.length_leftpad]; omega), ofDigits_leftpad,
      ofDigits, Nat.ofDigitChars_ten_toDigits]

/-- How `v` units of the `d`th digit are written. -/
def ofUnits (v : Int) (d : Nat) : Decimal where
  negative := v < 0
  whole := Nat.toDigits 10 (v.natAbs / 10 ^ d)
  fraction := fractionOf v.natAbs d
  whole_digits := isDigit_toDigits _
  whole_ne := Nat.toDigits_ne_nil
  whole_lead := toDigits_lead _
  fraction_digits := isDigit_fractionOf _ _
  fraction_last := rdropWhile_last _
  nonzero := by
    rintro hneg ⟨hwhole, hfraction⟩
    have hdiv := congrArg ofDigits hwhole
    have hmod := ofDigits_scaled_fractionOf v.natAbs d
    rw [hfraction, scaled, List.take_nil, List.rightpad, List.nil_append, ofDigits,
      Nat.ofDigitChars_replicate_zero, mul_zero] at hmod
    rw [ofDigits, Nat.ofDigitChars_ten_toDigits, show ofDigits ['0'] = 0 by decide] at hdiv
    have := Nat.div_add_mod v.natAbs (10 ^ d)
    rw [hdiv, ← hmod, mul_zero] at this
    have := of_decide_eq_true hneg
    omega

section OfUnits

variable (v : Int) (d : Nat)

@[simp] theorem negative_ofUnits : (ofUnits v d).negative = decide (v < 0) := rfl

@[simp] theorem whole_ofUnits : (ofUnits v d).whole = Nat.toDigits 10 (v.natAbs / 10 ^ d) := rfl

@[simp] theorem fraction_ofUnits : (ofUnits v d).fraction = fractionOf v.natAbs d := rfl

@[simp] theorem magnitude_ofUnits : (ofUnits v d).magnitude d = v.natAbs := by
  rw [magnitude_eq, fraction_ofUnits, ofDigits_scaled_fractionOf, whole_ofUnits, ofDigits,
    Nat.ofDigitChars_ten_toDigits]
  exact Nat.div_add_mod v.natAbs (10 ^ d)

theorem value_ofUnits : (ofUnits v d).value d = v := by
  rw [value, magnitude_ofUnits, negative_ofUnits]
  split
  · rename_i hneg
    have := of_decide_eq_true hneg
    omega
  · rename_i hneg
    have := of_decide_eq_false (Bool.eq_false_iff.mpr hneg)
    omega

end OfUnits

theorem rdropWhile_append_replicate (ds : List Char) (k : Nat) :
    (ds ++ List.replicate k '0').rdropWhile (· = '0') = ds.rdropWhile (· = '0') := by
  induction k with
  | zero => simp
  | succ k ih =>
    rw [List.replicate_succ', ← List.append_assoc, List.rdropWhile_concat_pos _ _ _ (by simp), ih]

theorem leftpad_toDigits {ds : List Char} (hds : ∀ c ∈ ds, c.isDigit) (hne : ds ≠ []) :
    (Nat.toDigits 10 (ofDigits ds)).leftpad ds.length '0' = ds := by
  refine ofDigits_inj (fun c hc => ?_) hds ?_ ?_
  · rw [List.leftpad, List.mem_append] at hc
    rcases hc with hc | hc
    · rw [List.eq_of_mem_replicate hc]
      decide
    · exact isDigit_toDigits _ c hc
  · have := (Nat.length_toDigits_le_iff (by decide) (List.length_pos_of_ne_nil hne)).mpr
      (ofDigits_lt hds)
    rw [List.length_leftpad]
    omega
  · rw [ofDigits_leftpad, ofDigits, Nat.ofDigitChars_ten_toDigits]

theorem fractionOf_scaled {fraction : List Char} {magnitude d : Nat}
    (hdigits : ∀ c ∈ fraction, c.isDigit) (hlast : fraction.getLast? ≠ some '0')
    (hlen : fraction.length ≤ d) (h : magnitude % 10 ^ d = ofDigits (scaled d fraction)) :
    fractionOf magnitude d = fraction := by
  rw [fractionOf, h]
  rcases Nat.eq_zero_or_pos d with rfl | hd
  · rw [List.length_eq_zero_iff.mp (Nat.le_zero.mp hlen)]
    decide
  · have hfull := leftpad_toDigits (isDigit_scaled (d := d) hdigits)
      (List.ne_nil_of_length_pos (by rwa [length_scaled]))
    rw [length_scaled] at hfull
    rw [hfull, scaled, List.take_of_length_le hlen, List.rightpad, rdropWhile_append_replicate,
      List.rdropWhile_eq_self_iff]
    intro hne hzero
    exact hlast (by rw [List.getLast?_eq_some_getLast hne, of_decide_eq_true hzero])

theorem magnitude_eq_zero {n : Decimal} {d : Nat} (hlen : n.fraction.length ≤ d)
    (h : n.magnitude d = 0) : n.whole = ['0'] ∧ n.fraction = [] := by
  rw [magnitude_eq] at h
  have hpow : 0 < 10 ^ d := Nat.pow_pos (by decide)
  have hwhole : ofDigits n.whole = 0 := by
    by_contra hne
    have := Nat.mul_pos hpow (Nat.pos_of_ne_zero hne)
    omega
  have hfraction : ofDigits (scaled d n.fraction) = 0 := by omega
  constructor
  · rw [← toDigits_ofDigits n.whole_digits n.whole_ne n.whole_lead, hwhole]
    decide
  · have hmod : 0 % 10 ^ d = ofDigits (scaled d n.fraction) := by rw [hfraction, Nat.zero_mod]
    have hempty : 0 % 10 ^ d = ofDigits (scaled d []) := by
      simp [scaled, List.rightpad, Nat.ofDigitChars_replicate_zero]
    rw [← fractionOf_scaled n.fraction_digits n.fraction_last hlen hmod,
      fractionOf_scaled (by simp) (by simp) (Nat.zero_le d) hempty]

theorem ofUnits_value {n : Decimal} {d : Nat} (hlen : n.fraction.length ≤ d) :
    ofUnits (n.value d) d = n := by
  have habs : (n.value d).natAbs = n.magnitude d := by
    rw [value]
    split <;> omega
  have hlt : ofDigits (scaled d n.fraction) < 10 ^ d := by
    simpa using ofDigits_lt (isDigit_scaled (d := d) n.fraction_digits)
  have hpow : 0 < 10 ^ d := Nat.pow_pos (by decide)
  have hwhole : (n.value d).natAbs / 10 ^ d = ofDigits n.whole := by
    rw [habs, magnitude_eq, Nat.mul_add_div hpow, Nat.div_eq_of_lt hlt, add_zero]
  have hfraction : (n.value d).natAbs % 10 ^ d = ofDigits (scaled d n.fraction) := by
    rw [habs, magnitude_eq, Nat.mul_add_mod, Nat.mod_eq_of_lt hlt]
  ext1
  · rw [negative_ofUnits, value]
    cases hneg : n.negative with
    | false =>
      rw [if_neg (by decide)]
      exact decide_eq_false (by omega)
    | true =>
      rw [if_pos rfl]
      have : n.magnitude d ≠ 0 := fun h => n.nonzero hneg (magnitude_eq_zero hlen h)
      exact decide_eq_true (by omega)
  · rw [whole_ofUnits, hwhole, toDigits_ofDigits n.whole_digits n.whole_ne n.whole_lead]
  · exact fractionOf_scaled n.fraction_digits n.fraction_last hlen hfraction

end Decimal
