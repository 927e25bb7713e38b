import Mathlib.Data.Nat.Cast.Field
import Mathlib.Data.Nat.Cast.Order.Field
import Mathlib.Data.Rat.Floor
import Mathlib.Tactic.FieldSimp
import Mathlib.Tactic.Positivity
import Stunks.Lib.Decimal

namespace Decimal

theorem ofDigits_scaled {whole fraction : List Char} (hdigits : ∀ c ∈ fraction, c.isDigit)
    (d : Nat) : ofDigits (whole ++ scaled d fraction) =
      ofDigits (whole ++ fraction) * 10 ^ d / 10 ^ fraction.length := by
  rcases Nat.le_total fraction.length d with hle | hge
  · have hscaled : whole ++ scaled d fraction =
        whole ++ fraction ++ List.replicate (d - fraction.length) '0' := by
      rw [scaled, List.take_of_length_le hle, List.rightpad, List.append_assoc]
    have hpow : 10 ^ d = 10 ^ fraction.length * 10 ^ (d - fraction.length) := by
      rw [← pow_add, Nat.add_sub_cancel' hle]
    have hzeros : ofDigits (List.replicate (d - fraction.length) '0') = 0 := by
      rw [ofDigits, Nat.ofDigitChars_replicate_zero, mul_zero]
    rw [hscaled, ofDigits_append, hzeros, List.length_replicate, hpow, mul_left_comm,
      Nat.mul_div_cancel_left _ (by positivity)]
    ring
  · have hscaled : scaled d fraction = fraction.take d := by
      rw [scaled, List.rightpad, List.length_take, min_eq_left hge, Nat.sub_self,
        List.replicate_zero, List.append_nil]
    have hlast : ofDigits (fraction.drop d) < 10 ^ (fraction.length - d) := by
      rw [← List.length_drop]
      exact ofDigits_lt fun c hc => hdigits c (List.mem_of_mem_drop hc)
    have hpow : 10 ^ fraction.length = 10 ^ (fraction.length - d) * 10 ^ d := by
      rw [← pow_add, Nat.sub_add_cancel hge]
    have happend : ofDigits (whole ++ fraction) = 10 ^ (fraction.length - d) *
        ofDigits (whole ++ fraction.take d) + ofDigits (fraction.drop d) := by
      conv_lhs => rw [← List.take_append_drop d fraction]
      rw [← List.append_assoc, ofDigits_append, List.length_drop]
    rw [hscaled, hpow, Nat.mul_div_mul_right _ _ (by positivity), happend,
      Nat.mul_add_div (by positivity), Nat.div_eq_of_lt hlast, add_zero]

theorem length_fractionOf_le (magnitude d : Nat) :
    (fractionOf magnitude d).length ≤ d := by
  have hpad : (fractionOf magnitude d).length ≤
      ((Nat.toDigits 10 (magnitude % 10 ^ d)).leftpad d '0').length :=
    (List.rdropWhile_prefix _ _).length_le
  rcases Nat.eq_zero_or_pos d with rfl | hd
  · rw [fractionOf, pow_zero, Nat.mod_one]
    decide
  · have hlt : magnitude % 10 ^ d < 10 ^ d := Nat.mod_lt _ (Nat.pow_pos (by decide))
    have := (Nat.length_toDigits_le_iff (by decide) hd).mpr hlt
    rw [List.length_leftpad] at hpad
    omega

end Decimal

/-- A sign, digits, and perhaps a point with digits after it. -/
structure DecimalShape where
  negative : Bool
  whole : List Char
  fraction : Option (List Char)
  whole_digits : ∀ c ∈ whole, c.isDigit
  fraction_digits : ∀ c ∈ fraction.getD [], c.isDigit

structure Numeral extends DecimalShape where
  some_digit : whole ++ fraction.getD [] ≠ []

namespace DecimalShape

open Decimal (ofDigits ofDigits_append ofDigits_scaled)

variable (n : DecimalShape)

def sign : List Char := if n.negative then ['-'] else []

def point : List Char :=
  match n.fraction with
  | none => []
  | some digits => '.' :: digits

def text : List Char := n.sign ++ (n.whole ++ n.point)

def magnitude : Nat := ofDigits (n.whole ++ n.fraction.getD [])

def places : Nat := (n.fraction.getD []).length

def value : ℚ := (if n.negative then -1 else 1) * (n.magnitude / 10 ^ n.places)

theorem text_of_no_digit (h : n.whole ++ n.fraction.getD [] = []) :
    n.text ∈ [[], ['-'], ['.'], ['-', '.']] := by
  obtain ⟨hwhole, hfraction⟩ := List.append_eq_nil_iff.mp h
  rw [text, sign, point, hwhole]
  cases hpoint : n.fraction with
  | none => cases n.negative <;> decide
  | some digits =>
    obtain rfl : digits = [] := by simpa [hpoint] using hfraction
    cases n.negative <;> decide

theorem mem_point {c : Char} (h : c ∈ n.point) : c = '.' ∨ c.isDigit := by
  rw [point] at h
  split at h
  · cases h
  · rename_i digits hpoint
    rcases List.mem_cons.mp h with hdot | hdigit
    · exact .inl hdot
    · exact .inr (n.fraction_digits c (by rwa [hpoint]))

theorem mem_text {c : Char} (h : c ∈ n.text) : c = '-' ∨ c = '.' ∨ c.isDigit := by
  rw [text, List.mem_append, List.mem_append] at h
  rcases h with hsign | hwhole | hpoint
  · rw [sign] at hsign
    split at hsign
    · exact .inl (List.mem_singleton.mp hsign)
    · cases hsign
  · exact .inr (.inr (n.whole_digits c hwhole))
  · exact .inr (n.mem_point hpoint)

theorem head_text : n.text.head? = some '-' ↔ n.negative = true := by
  have hunsigned : (n.whole ++ n.point).head? ≠ some '-' := by
    intro h
    rcases List.mem_append.mp (List.mem_of_head? h) with hwhole | hpoint
    · exact absurd (n.whole_digits _ hwhole) (by decide)
    · exact absurd (n.mem_point hpoint) (by decide)
  rw [text, sign]
  cases n.negative with
  | true => simp
  | false => simpa using hunsigned

theorem tail_text :
    (if n.text.head? = some '-' then n.text.tail else n.text) = n.whole ++ n.point := by
  simp only [head_text]
  rw [text, sign]
  cases n.negative with
  | true => simp
  | false => simp

@[simp] theorem takeWhile_unsigned : (n.whole ++ n.point).takeWhile Char.isDigit = n.whole := by
  have hpoint : n.point.takeWhile Char.isDigit = [] := by
    rw [point]
    split
    · rfl
    · rfl
  rw [List.takeWhile_append_of_pos n.whole_digits, hpoint, List.append_nil]

theorem text_inj {n m : DecimalShape} (h : n.text = m.text) : n = m := by
  have hnegative : n.negative = m.negative := by
    rw [Bool.eq_iff_iff, ← head_text, ← head_text, h]
  have hunsigned : n.whole ++ n.point = m.whole ++ m.point := by
    rw [← tail_text, ← tail_text, h]
  have hwhole : n.whole = m.whole := by
    rw [← takeWhile_unsigned n, hunsigned, takeWhile_unsigned m]
  have hpoint : n.point = m.point := by
    rw [hwhole] at hunsigned
    exact List.append_cancel_left hunsigned
  have hfraction : n.fraction = m.fraction := by
    unfold point at hpoint
    cases hn : n.fraction with
    | none =>
      cases hm : m.fraction with
      | none => rfl
      | some digits => simp [hn, hm] at hpoint
    | some digits =>
      cases hm : m.fraction with
      | none => simp [hn, hm] at hpoint
      | some digits' => simpa [hn, hm] using hpoint
  cases n
  cases m
  simp_all

theorem value_of_places_le {d : Nat} (h : n.places ≤ d) :
    n.value = (if n.negative then -1 else 1) *
      (ofDigits (n.whole ++ Decimal.scaled d (n.fraction.getD [])) / 10 ^ d) := by
  have hdvd : 10 ^ n.places ∣ n.magnitude * 10 ^ d := (pow_dvd_pow 10 h).mul_left _
  have hpow : ((10 ^ n.places : Nat) : ℚ) ≠ 0 := by positivity
  have hscaled : ofDigits (n.whole ++ Decimal.scaled d (n.fraction.getD [])) =
      n.magnitude * 10 ^ d / 10 ^ n.places := ofDigits_scaled n.fraction_digits d
  rw [value, hscaled, Nat.cast_div hdvd hpow]
  push_cast
  field_simp

def cut (k : Nat) : DecimalShape where
  negative := n.negative
  whole := n.whole
  fraction := n.fraction.map (List.take k)
  whole_digits := n.whole_digits
  fraction_digits := by
    cases hpoint : n.fraction with
    | none => simp
    | some digits =>
      have hdigits := n.fraction_digits
      rw [hpoint] at hdigits
      exact fun c hc => hdigits c (List.mem_of_mem_take hc)

theorem cut_value {n : DecimalShape} (h : n.negative = false) (k : Nat) :
    (n.cut k).value ≤ n.value ∧ n.value < (n.cut k).value + 1 / 10 ^ k := by
  let total := n.magnitude * 10 ^ k
  have hfraction : (n.cut k).fraction.getD [] = (n.fraction.getD []).take k := by
    change (n.fraction.map (List.take k)).getD [] = _
    cases n.fraction with
    | none => simp
    | some digits => rfl
  have hplaces : (n.cut k).places ≤ k := by
    rw [places, hfraction, List.length_take]
    exact min_le_left _ _
  have hscaled : Decimal.scaled k ((n.fraction.getD []).take k) =
      Decimal.scaled k (n.fraction.getD []) := by
    rw [Decimal.scaled, List.take_take, min_self, Decimal.scaled]
  have hcut : (n.cut k).value = (total / 10 ^ n.places : Nat) / 10 ^ k := by
    rw [value_of_places_le _ hplaces, hfraction, hscaled,
      show (n.cut k).negative = n.negative from rfl, h, show (n.cut k).whole = n.whole from rfl,
      ofDigits_scaled n.fraction_digits]
    simp [total, magnitude, places]
  have hvalue : n.value = total / 10 ^ n.places / 10 ^ k := by
    rw [value, h]
    simp only [Bool.false_eq_true, if_false, one_mul, total]
    push_cast
    field_simp
  have hlow : ((total / 10 ^ n.places : Nat) : ℚ) ≤ total / 10 ^ n.places := by
    have := Nat.cast_div_le (α := ℚ) (m := total) (n := 10 ^ n.places)
    push_cast at this
    exact this
  have hhigh : (total : ℚ) / 10 ^ n.places < (total / 10 ^ n.places : Nat) + 1 := by
    rw [div_lt_iff₀ (by positivity)]
    have := Nat.lt_mul_div_succ total (show 0 < 10 ^ n.places by positivity)
    rw [mul_comm] at this
    exact_mod_cast this
  have hpow : (0 : ℚ) < 10 ^ k := by positivity
  rw [hcut, hvalue, ← add_div]
  exact ⟨div_le_div_of_nonneg_right hlow hpow.le, div_lt_div_of_pos_right hhigh hpow⟩

end DecimalShape

namespace Decimal

def shape (n : Decimal) : DecimalShape where
  negative := n.negative
  whole := n.whole
  fraction := if n.fraction = [] then none else some n.fraction
  whole_digits := n.whole_digits
  fraction_digits := by
    split
    · simp
    · exact n.fraction_digits

@[simp] theorem fraction_shape (n : Decimal) : n.shape.fraction.getD [] = n.fraction := by
  rw [shape]
  dsimp only
  split
  · rename_i hempty
    exact hempty.symm
  · rfl

theorem text_shape (n : Decimal) : n.shape.text = n.text := by
  rw [DecimalShape.text, text, unsigned, DecimalShape.point, shape]
  dsimp only
  split
  · rw [List.append_nil]
    rfl
  · rfl

theorem value_shape_ofUnits (v : Int) (d : Nat) :
    (ofUnits v d).shape.value = v / 10 ^ d := by
  have hplaces : (ofUnits v d).shape.places ≤ d := by
    rw [DecimalShape.places, fraction_shape]
    exact length_fractionOf_le _ _
  have hdigits : ofDigits ((ofUnits v d).whole ++
      scaled d (ofUnits v d).fraction) = v.natAbs :=
    magnitude_ofUnits v d
  rw [DecimalShape.value_of_places_le _ hplaces, fraction_shape,
    show (ofUnits v d).shape.whole = (ofUnits v d).whole from rfl, hdigits,
    show (ofUnits v d).shape.negative = decide (v < 0) from rfl, Nat.cast_natAbs,
    mul_div_assoc']
  congr 1
  by_cases hneg : v < 0
  · simp [hneg, abs_of_neg hneg]
  · simp [hneg, abs_of_nonneg (not_lt.mp hneg)]

def numeral (n : Decimal) : Numeral where
  toDecimalShape := n.shape
  some_digit := List.append_ne_nil_of_left_ne_nil n.whole_ne _

end Decimal

namespace Numeral

/-- The text is a numeral, and what it writes is `x`. -/
def Reads (text : List Char) (x : ℚ) : Prop :=
  (∃ n : Numeral, n.text = text) ∧ ∀ n : Numeral, n.text = text → n.value = x

theorem reads_text (n : Numeral) : Reads n.text n.value :=
  ⟨⟨n, rfl⟩, fun _ hm => by rw [DecimalShape.text_inj hm]⟩

theorem reads_ofUnits (v : Int) (d : Nat) : Reads (Decimal.ofUnits v d).text (v / 10 ^ d) := by
  have h := (Decimal.ofUnits v d).numeral.reads_text
  rw [show (Decimal.ofUnits v d).numeral.text = (Decimal.ofUnits v d).text from
    Decimal.text_shape _, show (Decimal.ofUnits v d).numeral.value = v / 10 ^ d from
    Decimal.value_shape_ofUnits v d] at h
  exact h

theorem exists_digit (n : Numeral) : ∃ c ∈ n.text, c.isDigit := by
  obtain ⟨c, hc⟩ := List.exists_mem_of_ne_nil _ n.some_digit
  rcases List.mem_append.mp hc with hwhole | hfraction
  · exact ⟨c, by simp [DecimalShape.text, hwhole], n.whole_digits c hwhole⟩
  · refine ⟨c, ?_, n.fraction_digits c hfraction⟩
    rw [DecimalShape.text, DecimalShape.point]
    cases hpoint : n.fraction with
    | none => simp [hpoint] at hfraction
    | some digits =>
      rw [hpoint, Option.getD_some] at hfraction
      simp [hfraction]

def truncate (x : ℚ) : Int := if x < 0 then ⌈x⌉ else ⌊x⌋

theorem truncate_neg (x : ℚ) : truncate (-x) = -truncate x := by
  rcases lt_trichotomy x 0 with hneg | rfl | hpos
  · rw [truncate, if_neg (by linarith), truncate, if_pos hneg, Int.floor_neg]
  · decide
  · rw [truncate, if_pos (by linarith), truncate, if_neg (by linarith), Int.ceil_neg]

theorem truncate_div (a b : Nat) : truncate ((a : ℚ) / b) = (a / b : Nat) := by
  have hnonneg : (0 : ℚ) ≤ a / b := by positivity
  rw [truncate, if_neg (not_lt.mpr hnonneg), Rat.floor_natCast_div_natCast, Int.natCast_div]

end Numeral

theorem DecimalShape.truncate_value (n : DecimalShape) (d : Nat) :
    Numeral.truncate (n.value * 10 ^ d) =
      (if n.negative then -1 else 1) *
        (Decimal.ofDigits (n.whole ++ Decimal.scaled d (n.fraction.getD [])) : Int) := by
  have habs : Numeral.truncate ((n.magnitude : ℚ) / 10 ^ n.places * 10 ^ d) =
      Decimal.ofDigits (n.whole ++ Decimal.scaled d (n.fraction.getD [])) := by
    have h := Numeral.truncate_div (n.magnitude * 10 ^ d) (10 ^ n.places)
    rw [Decimal.ofDigits_scaled n.fraction_digits]
    push_cast at h ⊢
    rw [div_mul_eq_mul_div]
    exact h
  rw [DecimalShape.value]
  cases n.negative with
  | false => simpa using habs
  | true =>
    have hneg : ((-1 : ℚ) * (n.magnitude / 10 ^ n.places)) * 10 ^ d =
        -(n.magnitude / 10 ^ n.places * 10 ^ d) := by ring
    simp only [if_true]
    rw [hneg, Numeral.truncate_neg, habs]
    ring
