import Mathlib.Tactic.NormNum
import Stunks.Lib.Floors
import Stunks.Utils.Units

/-! `display.ts`: figures as people read them, cut and never rounded up. -/

namespace Stunks.Utils

def powTen (exponent : JsNumber) : Except JsError Int :=
  match exponent.integer with
  | none =>
    .error (.range (s!"The number {exponent.shown} cannot be converted to a BigInt because " ++
      "it is not an integer"))
  | some n => if n < 0 then .error (.range "Exponent must be non-negative") else .ok (10 ^ n.toNat)

def sliceTo (last : Int) (text : List Char) : List Char :=
  text.take (if last < 0 then text.length + last else last).toNat

def quotientWithPrecision (value divisor : Int) (precision : JsNumber) :
    Except JsError (List Char) := do
  let scale ← powTen precision
  let scaled ← divide (value * scale) divisor
  let whole := Nat.toDigits 10 (scaled.tdiv scale).toNat
  let fraction := scaled.tmod scale
  if fraction = 0 then return whole
  let padded := (Nat.toDigits 10 fraction.toNat).leftpad (precision.integer.getD 0).toNat '0'
  let fractionStr := padded.rdropWhile (· = '0')
  return if fractionStr = [] then whole else whole ++ '.' :: fractionStr

def units (base : Int) : List (Int × List Char) :=
  [(base * 1000000000, ['B']), (base * 1000000, ['M']), (base * 1000, ['K'])]

def formatCompact (value : Int) (decimals : JsNumber) (precision : optParam JsNumber (.ofNat 2)) :
    Except JsError (List Char) :=
  if value = 0 then .ok ['0']
  else do
    let negative := value < 0
    let magnitude := if negative then -value else value
    let sign := if negative then ['-'] else []
    let base ← powTen decimals
    match (units base).find? fun unit => unit.1 ≤ magnitude with
    | some (threshold, suffix) =>
      return sign ++ (← quotientWithPrecision magnitude threshold precision) ++ suffix
    | none => return sign ++ (← quotientWithPrecision magnitude base precision)

def isSignificant (c : Char) : Bool := '1' ≤ c ∧ c ≤ '9'

def formatPrice (priceScaled quoteDecimals : Int) (significantDigits : optParam Int 4)
    (tokenDecimals : optParam Int 18) (priceScaleExponent : optParam Int 27) :
    Except JsError (List Char) :=
  if priceScaled ≤ 0 then .ok ['0']
  else do
    let totalDecimals := quoteDecimals + priceScaleExponent - tokenDecimals
    let full ← formatUnitsExact priceScaled (.ofInt totalDecimals)
    let parts := full.splitOn '.'
    let whole := parts.getD 0 ['0']
    let fraction := parts.getD 1 []
    if whole ≠ ['0'] then
      return if fraction = [] then whole else whole ++ '.' :: fraction.take 2
    match fraction.findIdx? isSignificant with
    | none => return ['0']
    | some firstSignificant =>
      return '0' :: '.' :: sliceTo (firstSignificant + significantDigits) fraction

@[simp] theorem powTen_ofNat (n : Nat) : powTen (.ofNat n) = .ok (10 ^ n) := by
  rw [powTen, JsNumber.ofNat]
  dsimp only
  rw [if_neg (by omega), Int.toNat_natCast]

theorem fractionOf_eq_nil {magnitude d : Nat} (h : magnitude % 10 ^ d = 0) :
    Decimal.fractionOf magnitude d = [] := by
  rw [Decimal.fractionOf, h, List.rdropWhile_eq_nil_iff]
  intro c hc
  rw [List.leftpad, List.mem_append] at hc
  rcases hc with hpad | hzero
  · rw [List.eq_of_mem_replicate hpad]
    rfl
  · rw [List.mem_singleton.mp hzero]
    rfl

theorem text_ofUnits_natCast (m d : Nat) : (Decimal.ofUnits m d).text =
    if Decimal.fractionOf m d = [] then Nat.toDigits 10 (m / 10 ^ d)
    else Nat.toDigits 10 (m / 10 ^ d) ++ '.' :: Decimal.fractionOf m d := by
  have hsign : (Decimal.ofUnits m d).sign = [] := by
    rw [Decimal.sign, Decimal.negative_ofUnits, decide_eq_false (by omega)]
    rfl
  rw [Decimal.text, hsign, List.nil_append, Decimal.unsigned, Decimal.whole_ofUnits,
    Decimal.fraction_ofUnits, Int.natAbs_natCast]

theorem quotientWithPrecision_eq {value divisor : Int} (hvalue : 0 ≤ value) (hdivisor : 0 < divisor)
    (p : Nat) : quotientWithPrecision value divisor (.ofNat p) =
      .ok (Decimal.ofUnits (value * 10 ^ p / divisor) p).text := by
  have hprod : 0 ≤ value * 10 ^ p := mul_nonneg hvalue (by positivity)
  obtain ⟨m, hm⟩ := Int.eq_ofNat_of_zero_le (Int.ediv_nonneg hprod hdivisor.le)
  have hpow : (10 : Int) ^ p = ((10 ^ p : Nat) : Int) := by norm_cast
  have hdiv : ((m : Int).tdiv (10 ^ p)).toNat = m / 10 ^ p := by
    rw [hpow, ← Int.ofNat_tdiv, Int.toNat_natCast]
  have hmod : (m : Int).tmod (10 ^ p) = (m % 10 ^ p : Nat) := by
    rw [hpow, ← Int.ofNat_tmod]
  have hprecision : ((JsNumber.ofNat p).integer.getD 0).toNat = p := Int.toNat_natCast p
  rw [quotientWithPrecision, powTen_ofNat, ok_bind, divide_of_nonneg hprod hdivisor, ok_bind, hm,
    text_ofUnits_natCast]
  simp only [hdiv, hmod, hprecision, Int.toNat_natCast]
  split
  · rename_i hzero
    rw [if_pos (fractionOf_eq_nil (by exact_mod_cast hzero))]
    rfl
  · rfl

def suffixes : List (List Char × ℚ) := [([], 1), (['K'], 10 ^ 3), (['M'], 10 ^ 6), (['B'], 10 ^ 9)]

theorem quotient_bounds {value : Int} {d p : Nat} (unit : Nat) (hunit : 0 < unit) :
    ((value * 10 ^ p / (10 ^ d * unit) : Int) : ℚ) / 10 ^ p * unit ≤ value / 10 ^ d ∧
      (value : ℚ) / 10 ^ d <
        ((value * 10 ^ p / (10 ^ d * unit) : Int) : ℚ) / 10 ^ p * unit + unit / 10 ^ p := by
  have hdivisor : (0 : Int) < 10 ^ d * unit := by positivity
  let figure := value * 10 ^ p / (10 ^ d * (unit : Int))
  have hlow : (figure : ℚ) * (10 ^ d * unit) ≤ value * 10 ^ p := by
    exact_mod_cast Int.ediv_mul_le (value * 10 ^ p) hdivisor.ne'
  have hhigh : (value : ℚ) * 10 ^ p < (figure + 1) * (10 ^ d * unit) := by
    exact_mod_cast Floors.lt_succ_ediv_mul (value * 10 ^ p) hdivisor
  constructor
  · rw [le_div_iff₀ (by positivity), div_mul_eq_mul_div, div_mul_eq_mul_div,
      div_le_iff₀ (by positivity)]
    linarith
  · rw [div_mul_eq_mul_div, ← add_div, div_lt_div_iff₀ (by positivity) (by positivity)]
    linarith

/-- The figure, in units, is at most the amount and less than its last digit below it. -/
def Truncates (figure : List Char) (unit amount : ℚ) (precision : Nat) : Prop :=
  ∃ x, Numeral.Reads figure x ∧ x * unit ≤ amount ∧ amount < x * unit + unit / 10 ^ precision

theorem quotientWithPrecision_truncates {value : Int} (hvalue : 0 ≤ value) (d p : Nat) {unit : Nat}
    (hunit : 0 < unit) :
    ∃ figure, quotientWithPrecision value (10 ^ d * unit) (.ofNat p) = .ok figure ∧
      Truncates figure unit (value / 10 ^ d) p := by
  have hdivisor : (0 : Int) < 10 ^ d * unit := by positivity
  exact ⟨_, quotientWithPrecision_eq hvalue hdivisor p, _, Numeral.reads_ofUnits _ p,
    quotient_bounds unit hunit⟩

theorem mem_units {d : Nat} {threshold : Int} {suffix : List Char}
    (h : (threshold, suffix) ∈ units (10 ^ d)) :
    ∃ unit : Nat, 0 < unit ∧ threshold = 10 ^ d * unit ∧ (suffix, (unit : ℚ)) ∈ suffixes := by
  simp only [units, List.mem_cons, List.not_mem_nil, or_false, Prod.mk.injEq] at h
  rcases h with ⟨rfl, rfl⟩ | ⟨rfl, rfl⟩ | ⟨rfl, rfl⟩
  · exact ⟨10 ^ 9, by decide, by norm_num, by norm_num [suffixes]⟩
  · exact ⟨10 ^ 6, by decide, by norm_num, by norm_num [suffixes]⟩
  · exact ⟨10 ^ 3, by decide, by norm_num, by norm_num [suffixes]⟩

theorem formatCompact_truncates {value : Int} (hvalue : 0 ≤ value) (d p : Nat) :
    ∃ figure suffix unit, formatCompact value (.ofNat d) (.ofNat p) = .ok (figure ++ suffix) ∧
      (suffix, unit) ∈ suffixes ∧ Truncates figure unit (value / 10 ^ d) p := by
  rw [formatCompact]
  split
  · rename_i hzero
    refine ⟨['0'], [], 1, rfl, by simp [suffixes], 0, ?_, ?_, ?_⟩
    · have hreads := Numeral.reads_ofUnits 0 0
      rw [show (Decimal.ofUnits 0 0).text = ['0'] by decide] at hreads
      simpa using hreads
    · simp [hzero]
    · simp [hzero]
  · have hnegative : ¬value < 0 := not_lt.mpr hvalue
    simp only [hnegative, if_false, List.nil_append, powTen_ofNat, ok_bind]
    cases hfind : (units (10 ^ d)).find? fun unit => decide (unit.1 ≤ value) with
    | some entry =>
      obtain ⟨threshold, suffix⟩ := entry
      obtain ⟨unit, hunit, rfl, hsuffix⟩ := mem_units (List.mem_of_find?_eq_some hfind)
      obtain ⟨figure, hfigure, htruncates⟩ := quotientWithPrecision_truncates hvalue d p hunit
      refine ⟨figure, suffix, unit, ?_, hsuffix, htruncates⟩
      simp only [hfigure, ok_bind]
      rfl
    | none =>
      obtain ⟨figure, hfigure, htruncates⟩ :=
        quotientWithPrecision_truncates hvalue d p (show 0 < 1 by decide)
      rw [Nat.cast_one, mul_one] at hfigure
      refine ⟨figure, [], 1, ?_, by simp [suffixes], by exact_mod_cast htruncates⟩
      simp only [hfigure, ok_bind, List.append_nil]
      rfl

theorem sliceTo_natCast (k : Nat) (text : List Char) : sliceTo k text = text.take k := by
  rw [sliceTo, if_neg (by omega), Int.toNat_natCast]

theorem eq_zero_of_not_significant {c : Char} (hc : c.isDigit) (h : isSignificant c = false) :
    c = '0' := by
  have hrange := Char.isDigit_iff_toNat.mp hc
  simp only [isSignificant, decide_eq_false_iff_not, Char.le_def, UInt32.le_iff_toNat_le] at h
  refine Char.toNat_inj.mp ?_
  have hval : c.val.toNat = c.toNat := rfl
  simp only [Char.isValue, Char.reduceToNat, Char.reduceVal, UInt32.reduceToNat] at *
  omega

theorem ne_zero_of_significant {c : Char} (h : isSignificant c = true) : c ≠ '0' := by
  rintro rfl
  revert h
  decide

theorem ofDigits_of_findIdx {fraction : List Char} {k : Nat} (hdigits : ∀ c ∈ fraction, c.isDigit)
    (h : fraction.findIdx? isSignificant = some k) : k < fraction.length ∧
      10 ^ (fraction.length - k - 1) ≤ Decimal.ofDigits fraction ∧
      Decimal.ofDigits fraction < 10 ^ (fraction.length - k) := by
  obtain ⟨hk, hfirst, hbefore⟩ := List.findIdx?_eq_some_iff_getElem.mp h
  have hzeros : Decimal.ofDigits (fraction.take k) = 0 := by
    have hreplicate : fraction.take k = List.replicate k '0' := by
      refine List.eq_replicate_iff.mpr ⟨by rw [List.length_take]; omega, fun c hc => ?_⟩
      obtain ⟨j, hj, rfl⟩ := List.mem_take_iff_getElem.mp hc
      have hjk : j < k := by omega
      exact eq_zero_of_not_significant (hdigits _ (List.getElem_mem _))
        (Bool.eq_false_iff.mpr (hbefore j hjk))
    rw [hreplicate, Decimal.ofDigits, Nat.ofDigitChars_replicate_zero, mul_zero]
  have hrest : Decimal.ofDigits fraction = Decimal.ofDigits (fraction.drop k) := by
    conv_lhs => rw [← List.take_append_drop k fraction]
    rw [Decimal.ofDigits_append, hzeros, mul_zero, zero_add]
  have hlow := Decimal.pow_le_ofDigits (fraction.drop (k + 1))
    (hdigits _ (List.getElem_mem hk)) (ne_zero_of_significant hfirst)
  have hhigh := Decimal.ofDigits_lt fun c hc => hdigits c (List.mem_of_mem_drop (i := k) hc)
  rw [← List.drop_eq_getElem_cons hk, List.length_drop] at hlow
  rw [List.length_drop] at hhigh
  rw [hrest]
  exact ⟨hk, by simpa [Nat.sub_sub] using hlow, hhigh⟩

theorem magnitude_of_whole_zero {n : Decimal} (hwhole : n.whole = ['0']) :
    n.shape.magnitude = Decimal.ofDigits n.fraction := by
  have hzero : Decimal.ofDigits ['0'] = 0 := by decide
  rw [DecimalShape.magnitude, n.fraction_shape, show n.shape.whole = n.whole from rfl, hwhole,
    Decimal.ofDigits_append, hzero, mul_zero, zero_add]

theorem value_of_findIdx {n : Decimal} {k : Nat} (hnegative : n.negative = false)
    (hwhole : n.whole = ['0']) (h : n.fraction.findIdx? isSignificant = some k) :
    1 ≤ n.shape.value * 10 ^ (k + 1) ∧ n.shape.value * 10 ^ k < 1 := by
  obtain ⟨hk, hlow, hhigh⟩ := ofDigits_of_findIdx n.fraction_digits h
  have hplaces : n.shape.places = n.fraction.length := by
    rw [DecimalShape.places, n.fraction_shape]
  have hvalue : n.shape.value = Decimal.ofDigits n.fraction / 10 ^ n.fraction.length := by
    rw [DecimalShape.value, show n.shape.negative = n.negative from rfl, hnegative,
      magnitude_of_whole_zero hwhole, hplaces]
    simp
  rw [hvalue, div_mul_eq_mul_div, div_mul_eq_mul_div]
  constructor
  · rw [le_div_iff₀ (by positivity), one_mul]
    calc (10 : ℚ) ^ n.fraction.length = 10 ^ (n.fraction.length - k - 1) * 10 ^ (k + 1) := by
          rw [← pow_add]
          congr 1
          omega
      _ ≤ _ := by
          gcongr
          exact_mod_cast hlow
  · rw [div_lt_one (by positivity)]
    calc _ < (10 : ℚ) ^ (n.fraction.length - k) * 10 ^ k := by
          gcongr
          exact_mod_cast hhigh
      _ = 10 ^ n.fraction.length := by
          rw [← pow_add]
          congr 1
          omega

theorem exists_significant {n : Decimal} (hwhole : n.whole = ['0']) (hpos : 0 < n.shape.value) :
    ∃ k, n.fraction.findIdx? isSignificant = some k := by
  cases hfind : n.fraction.findIdx? isSignificant with
  | some k => exact ⟨k, rfl⟩
  | none =>
    have hzeros : ∀ c ∈ n.fraction, c = '0' := fun c hc =>
      eq_zero_of_not_significant (n.fraction_digits c hc)
        (by simpa using List.findIdx?_eq_none_iff.mp hfind c hc)
    have hempty : n.fraction = [] := by
      by_contra hne
      exact n.fraction_last (by
        rw [List.getLast?_eq_some_getLast hne, hzeros _ (List.getLast_mem hne)])
    rw [DecimalShape.value, magnitude_of_whole_zero hwhole, hempty] at hpos
    simp [Decimal.ofDigits] at hpos

theorem text_cut {n : Decimal} (hnegative : n.negative = false) (k : Nat) :
    (n.shape.cut k).text =
      if n.fraction = [] then n.whole else n.whole ++ '.' :: n.fraction.take k := by
  have hsign : (n.shape.cut k).sign = [] := by
    rw [DecimalShape.sign, show (n.shape.cut k).negative = false from hnegative]
    rfl
  have hpoint : (n.shape.cut k).point =
      if n.fraction = [] then [] else '.' :: n.fraction.take k := by
    have hfraction : (n.shape.cut k).fraction = n.shape.fraction.map (List.take k) := rfl
    rw [DecimalShape.point, hfraction]
    by_cases hempty : n.fraction = []
    · rw [if_pos hempty, show n.shape.fraction = none from if_pos hempty]
      rfl
    · rw [if_neg hempty, show n.shape.fraction = some n.fraction from if_neg hempty]
      rfl
  rw [DecimalShape.text, hsign, List.nil_append, hpoint,
    show (n.shape.cut k).whole = n.whole from rfl]
  split
  · rw [List.append_nil]
  · rfl

theorem one_le_of_whole_ne {v : Int} {d : Nat} (hpos : 0 < v)
    (h : (Decimal.ofUnits v d).whole ≠ ['0']) : 1 ≤ (v : ℚ) / 10 ^ d := by
  rw [one_le_div (by positivity)]
  by_contra hlt
  have hsmall : v < 10 ^ d := by exact_mod_cast not_le.mp hlt
  have hdiv : v.natAbs / 10 ^ d = 0 := Nat.div_eq_of_lt (by zify; rwa [abs_of_pos hpos])
  rw [Decimal.whole_ofUnits, hdiv] at h
  exact h rfl

/-- A positive figure, at most the price, and less than a hundredth below it, or for a price
below one less than a unit of its last significant digit. -/
def ShowsPrice (text : List Char) (price : ℚ) (significantDigits : Nat) : Prop :=
  ∃ x, Numeral.Reads text x ∧ 0 < x ∧ x ≤ price ∧ (1 ≤ price → price < x + 1 / 100) ∧
    (price < 1 → ∃ zeros : Nat, 1 ≤ price * 10 ^ (zeros + 1) ∧ price * 10 ^ zeros < 1 ∧
      price < x + 1 / 10 ^ (zeros + significantDigits))

section Price

variable {priceScaled q t e : Int} {d : Nat}

/-- What is shown of a price is its exact numeral, cut behind two places if there is a whole part,
and else behind the significant digits. -/
theorem formatPrice_cut (hpos : 0 < priceScaled) (hd : d ≤ 48) (htotal : q + e - t = d)
    (significantDigits : Nat) :
    ∃ k, formatPrice priceScaled q significantDigits t e =
        .ok ((Decimal.ofUnits priceScaled d).shape.cut k).text ∧
      (1 ≤ (priceScaled : ℚ) / 10 ^ d ∧ k = 2 ∨
        ∃ zeros, k = zeros + significantDigits ∧
          1 ≤ (priceScaled : ℚ) / 10 ^ d * 10 ^ (zeros + 1) ∧
          (priceScaled : ℚ) / 10 ^ d * 10 ^ zeros < 1) := by
  let n := Decimal.ofUnits priceScaled d
  have hnegative : n.negative = false := decide_eq_false (by omega)
  have hvalue : n.shape.value = priceScaled / 10 ^ d := Decimal.value_shape_ofUnits _ _
  have htext : n.text = n.shape.whole ++ n.shape.point := by
    rw [← n.text_shape, DecimalShape.text, DecimalShape.sign,
      show n.shape.negative = false from hnegative]
    rfl
  obtain ⟨hwhole, hfraction⟩ := splitOn_unsigned n.shape
  rw [← htext, n.fraction_shape] at hfraction
  rw [← htext, show n.shape.whole = n.whole from rfl] at hwhole
  have hparts : ∃ rest, n.text.splitOn '.' = n.whole :: rest := by
    cases hsplit : n.text.splitOn '.' with
    | nil => exact absurd hsplit (List.splitOn_ne_nil _ _)
    | cons first rest => exact ⟨rest, by rw [← hwhole, hsplit]; rfl⟩
  obtain ⟨rest, hparts⟩ := hparts
  rw [hparts] at hfraction
  have hformat : formatUnitsExact priceScaled (.ofInt (q + e - t)) = .ok n.text := by
    rw [htotal]
    exact formatUnitsExact_eq priceScaled hd
  rw [formatPrice, if_neg (not_le.mpr hpos)]
  simp only [hformat, ok_bind, hparts, List.getD_cons_zero, hfraction]
  by_cases hzero : n.whole = ['0']
  · obtain ⟨zeros, hfind⟩ := exists_significant hzero (by rw [hvalue]; positivity)
    have hne : n.fraction ≠ [] := by
      intro hempty
      rw [hempty] at hfind
      cases hfind
    have hbounds := value_of_findIdx hnegative hzero hfind
    rw [hvalue] at hbounds
    refine ⟨zeros + significantDigits, ?_, .inr ⟨zeros, rfl, hbounds⟩⟩
    rw [if_neg (not_not.mpr hzero), hfind, text_cut hnegative, if_neg hne, hzero]
    dsimp only
    rw [← Nat.cast_add, sliceTo_natCast]
    rfl
  · refine ⟨2, ?_, .inl ⟨one_le_of_whole_ne hpos hzero, rfl⟩⟩
    rw [if_pos hzero, text_cut hnegative]
    rfl

theorem formatPrice_shows (hpos : 0 < priceScaled) (hd : d ≤ 48) (htotal : q + e - t = d)
    {significantDigits : Nat} (hsignificant : 1 ≤ significantDigits) :
    ∃ text, formatPrice priceScaled q significantDigits t e = .ok text ∧
      ShowsPrice text (priceScaled / 10 ^ d) significantDigits := by
  obtain ⟨k, htext, hk⟩ := formatPrice_cut hpos hd htotal significantDigits
  let n := Decimal.ofUnits priceScaled d
  have hnegative : n.negative = false := decide_eq_false (by omega)
  let shown : Numeral := ⟨n.shape.cut k, List.append_ne_nil_of_left_ne_nil n.whole_ne _⟩
  obtain ⟨hle, hlt⟩ := DecimalShape.cut_value (n := n.shape) hnegative k
  rw [Decimal.value_shape_ofUnits] at hle hlt
  have hlt : (priceScaled : ℚ) / 10 ^ d < shown.value + 1 / 10 ^ k := hlt
  refine ⟨_, htext, _, shown.reads_text, ?_, hle, fun hlarge => ?_, fun hsmall => ?_⟩
  · rcases hk with ⟨hlarge, rfl⟩ | ⟨zeros, rfl, hlow, -⟩
    · norm_num at hlt
      linarith
    · -- The last digit shown is at most a unit of the first significant one.
      have hunit : (1 : ℚ) / 10 ^ (zeros + significantDigits) ≤ 1 / 10 ^ (zeros + 1) := by
        gcongr
        · norm_num
      have hprice : 1 / 10 ^ (zeros + 1) ≤ (priceScaled : ℚ) / 10 ^ d := by
        rwa [div_le_iff₀ (by positivity)]
      linarith
  · rcases hk with ⟨-, rfl⟩ | ⟨zeros, -, -, hhigh⟩
    · norm_num at hlt ⊢
      exact hlt
    · have hpow : (1 : ℚ) ≤ 10 ^ zeros := one_le_pow₀ (by norm_num)
      nlinarith
  · rcases hk with ⟨hlarge, -⟩ | ⟨zeros, rfl, hlow, hhigh⟩
    · exact absurd hsmall (not_lt.mpr hlarge)
    · exact ⟨zeros, hlow, hhigh, hlt⟩

end Price

/-- Figures are cut and never overstate. -/
theorem figures_truncate :
    (∀ (value : Int) (d p : Nat), 0 ≤ value →
      ∃ figure suffix unit, formatCompact value (.ofNat d) (.ofNat p) = .ok (figure ++ suffix) ∧
        (suffix, unit) ∈ suffixes ∧ Truncates figure unit (value / 10 ^ d) p) ∧
      ∀ (priceScaled q t e : Int) (d significantDigits : Nat), 0 < priceScaled → q + e - t = d →
        d ≤ 48 → 1 ≤ significantDigits →
        ∃ text, formatPrice priceScaled q significantDigits t e = .ok text ∧
          ShowsPrice text (priceScaled / 10 ^ d) significantDigits :=
  ⟨fun _ d p hvalue => formatCompact_truncates hvalue d p,
    fun _ _ _ _ _ _ hpos htotal hd hsignificant => formatPrice_shows hpos hd htotal hsignificant⟩

theorem figures_truncate_satoshi :
    (∃ figure suffix unit, formatCompact 3236000000 (.ofNat 6) (.ofNat 2) = .ok (figure ++ suffix) ∧
      (suffix, unit) ∈ suffixes ∧ Truncates figure unit ((3236000000 : Int) / 10 ^ 6) 2) ∧
      ∃ text, formatPrice 5223890 8 (4 : Nat) 18 27 = .ok text ∧
        ShowsPrice text ((5223890 : Int) / 10 ^ 17) 4 :=
  ⟨figures_truncate.1 _ 6 2 (by decide),
    figures_truncate.2 _ 8 18 27 17 4 (by decide) (by decide) (by decide) (by decide)⟩

end Stunks.Utils
