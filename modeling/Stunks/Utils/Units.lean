import Stunks.Lib.Numeral
import Stunks.Utils.Money
import Stunks.Utils.Text

/-! Amounts as people write them.  Both directions of `money.ts` go through one numeral. -/

namespace Stunks.Utils

def maxDecimals : Int := 48

def JsNumber.decimals (n : JsNumber) : Option Nat :=
  n.integer.bind fun d => if d < 0 ∨ d > maxDecimals then none else some d.toNat

/-- `/^-?\d*(\.\d*)?$/.test(text)` -/
def isDecimalText (text : List Char) : Bool :=
  let unsigned := if text.head? = some '-' then text.tail else text
  match unsigned.dropWhile Char.isDigit with
  | [] => true
  | '.' :: fraction => fraction.all Char.isDigit
  | _ :: _ => false

def parseUnitsExact (value : List Char) (decimals : JsNumber) : Except JsError Int :=
  match decimals.decimals with
  | none => .error (.money s!"parseUnitsExact: invalid decimals: {decimals.shown}")
  | some d =>
    let trimmed := trim value
    if isDecimalText trimmed = false ∨ trimmed = [] ∨ trimmed = ['-'] then
      .error (.money s!"parseUnitsExact: not a decimal number: {String.ofList value}")
    else
      let negative := trimmed.head? = some '-'
      let unsigned := if negative then trimmed.drop 1 else trimmed
      let parts := unsigned.splitOn '.'
      let wholePart := parts.getD 0 []
      let fractionPart := parts.getD 1 []
      let whole := if wholePart = [] then ['0'] else wholePart
      let fraction := (fractionPart.take d).rightpad d '0'
      let magnitude : Int := Nat.ofDigitChars 10 (whole ++ fraction) 0
      .ok (if negative then -magnitude else magnitude)

def formatUnitsExact (value : Int) (decimals : JsNumber) : Except JsError (List Char) :=
  match decimals.decimals with
  | none => .error (.money s!"formatUnitsExact: invalid decimals: {decimals.shown}")
  | some d =>
    let magnitude := if value < 0 then -value else value
    let base : Int := 10 ^ d
    let whole := Nat.toDigits 10 (magnitude.tdiv base).toNat
    let fraction := Nat.toDigits 10 (magnitude.tmod base).toNat
    let sign := if value < 0 then ['-'] else []
    if d = 0 then .ok (sign ++ whole)
    else
      let fractionStr := (fraction.leftpad d '0').rdropWhile (· = '0')
      .ok (if fractionStr = [] then sign ++ whole else sign ++ whole ++ '.' :: fractionStr)

theorem JsNumber.decimals_ofNat {d : Nat} (hd : d ≤ 48) : (JsNumber.ofNat d).decimals = some d := by
  have hrange : ¬((d : Int) < 0 ∨ (d : Int) > maxDecimals) := by
    unfold maxDecimals
    omega
  simp [JsNumber.decimals, JsNumber.ofNat, hrange]

theorem isSpace_of_isDigit {c : Char} (h : c.isDigit) : Pattern.isSpace c = false := by
  have hrange := Char.isDigit_iff_toNat.mp h
  simp only [Char.isValue, Char.reduceToNat] at hrange
  exact isSpace_of_visible (by omega) (by omega)

theorem formatUnitsExact_eq (v : Int) {d : Nat} (hd : d ≤ 48) :
    formatUnitsExact v (.ofNat d) = .ok (Decimal.ofUnits v d).text := by
  have habs : (if v < 0 then -v else v) = (v.natAbs : Int) := by
    split <;> omega
  have hpow : (10 : Int) ^ d = ((10 ^ d : Nat) : Int) := by norm_cast
  have hdiv : ((v.natAbs : Int).tdiv (10 ^ d)).toNat = v.natAbs / 10 ^ d := by
    rw [hpow, ← Int.ofNat_tdiv, Int.toNat_natCast]
  have hmod : ((v.natAbs : Int).tmod (10 ^ d)).toNat = v.natAbs % 10 ^ d := by
    rw [hpow, ← Int.ofNat_tmod, Int.toNat_natCast]
  have hwhole : Nat.toDigits 10 (v.natAbs / 10 ^ d) = (Decimal.ofUnits v d).whole := rfl
  have hfraction : ((Nat.toDigits 10 (v.natAbs % 10 ^ d)).leftpad d '0').rdropWhile (· = '0') =
      (Decimal.ofUnits v d).fraction := rfl
  have hsign : (if v < 0 then ['-'] else []) = (Decimal.ofUnits v d).sign := by
    simp [Decimal.sign]
  simp only [formatUnitsExact, JsNumber.decimals_ofNat hd, habs, hdiv, hmod]
  rw [hwhole, hfraction, hsign, Decimal.text, Decimal.unsigned]
  split
  · rename_i hzero
    have hempty : (Decimal.ofUnits v d).fraction = [] := by
      rw [Decimal.fraction_ofUnits, hzero, Decimal.fractionOf, pow_zero, Nat.mod_one]
      decide
    rw [if_pos hempty]
  · congr 1
    split
    · rfl
    · rw [List.append_assoc]

theorem trim_text (n : DecimalShape) : trim n.text = n.text := by
  refine trim_of_forall fun c hc => ?_
  rcases n.mem_text hc with rfl | rfl | hdigit
  · decide
  · decide
  · exact isSpace_of_isDigit hdigit

theorem dot_notMem {ds : List Char} (h : ∀ c ∈ ds, c.isDigit) : '.' ∉ ds :=
  fun hdot => absurd (h _ hdot) (by decide)

theorem isDecimalText_iff {text : List Char} :
    isDecimalText text = true ↔ ∃ n : DecimalShape, n.text = text := by
  constructor
  · intro h
    let unsigned := if text.head? = some '-' then text.tail else text
    have hsign : (if text.head? = some '-' then ['-'] else []) ++ unsigned = text := by
      by_cases hhead : text.head? = some '-'
      · obtain ⟨rest, rfl⟩ := List.head?_eq_some_iff.mp hhead
        rfl
      · simp [unsigned, hhead]
    have hcut : unsigned.takeWhile Char.isDigit ++ unsigned.dropWhile Char.isDigit = unsigned :=
      List.takeWhile_append_dropWhile
    have hwhole : ∀ c ∈ unsigned.takeWhile Char.isDigit, c.isDigit :=
      fun c hc => List.mem_takeWhile_imp hc
    rw [isDecimalText] at h
    split at h
    · rename_i hrest
      rw [show unsigned.dropWhile Char.isDigit = [] from hrest] at hcut
      refine ⟨⟨text.head? = some '-', _, none, hwhole, by simp⟩, ?_⟩
      simp only [DecimalShape.text, DecimalShape.sign, DecimalShape.point, decide_eq_true_eq, hcut,
        hsign]
    · rename_i fraction hrest
      rw [show unsigned.dropWhile Char.isDigit = '.' :: fraction from hrest] at hcut
      refine ⟨⟨text.head? = some '-', _, some fraction, hwhole, List.all_eq_true.mp h⟩, ?_⟩
      simp only [DecimalShape.text, DecimalShape.sign, DecimalShape.point, decide_eq_true_eq, hcut,
        hsign]
    · cases h
  · rintro ⟨n, rfl⟩
    rw [isDecimalText, n.tail_text, List.dropWhile_append_of_pos n.whole_digits, DecimalShape.point]
    cases hpoint : n.fraction with
    | none => rfl
    | some fraction =>
      have hdigits := n.fraction_digits
      rw [hpoint] at hdigits
      rw [List.dropWhile_cons_of_neg (by decide)]
      exact List.all_eq_true.mpr hdigits

theorem splitOn_unsigned (n : DecimalShape) :
    ((n.whole ++ n.point).splitOn '.').getD 0 [] = n.whole ∧
      ((n.whole ++ n.point).splitOn '.').getD 1 [] = n.fraction.getD [] := by
  have hwhole := dot_notMem n.whole_digits
  have hfraction := dot_notMem n.fraction_digits
  rw [DecimalShape.point]
  cases hpoint : n.fraction with
  | none =>
    rw [List.append_nil, List.splitOn_eq_singleton hwhole]
    exact ⟨rfl, rfl⟩
  | some fraction =>
    rw [hpoint, Option.getD_some] at hfraction
    dsimp only
    rw [List.splitOn_append_cons_self_of_not_mem hwhole, List.splitOn_eq_singleton hfraction]
    exact ⟨rfl, rfl⟩

theorem parseUnitsExact_shape {n : DecimalShape} {s : List Char} {d : Nat} (hd : d ≤ 48)
    (hs : trim s = n.text) (hnil : n.text ≠ []) (hsign : n.text ≠ ['-']) :
    parseUnitsExact s (.ofNat d) = .ok ((if n.negative then -1 else 1) *
      (Decimal.ofDigits (n.whole ++ Decimal.scaled d (n.fraction.getD [])) : Int)) := by
  have hpattern : isDecimalText n.text = true := isDecimalText_iff.mpr ⟨n, rfl⟩
  obtain ⟨hwhole, hfraction⟩ := splitOn_unsigned n
  have htail : (if n.negative = true then n.text.drop 1 else n.text) = n.whole ++ n.point := by
    have h := n.tail_text
    simp only [n.head_text] at h
    rwa [List.drop_one]
  have hzero : Decimal.ofDigits ((if n.whole = [] then ['0'] else n.whole) ++
      Decimal.scaled d (n.fraction.getD [])) =
      Decimal.ofDigits (n.whole ++ Decimal.scaled d (n.fraction.getD [])) := by
    split
    · rename_i hempty
      rw [hempty, Decimal.ofDigits_append, Decimal.ofDigits_append]
      rfl
    · rfl
  simp only [parseUnitsExact, JsNumber.decimals_ofNat hd, hs, hpattern, hnil, hsign,
    Bool.true_eq_false, or_self, if_false, n.head_text, htail, hwhole, hfraction]
  rw [show (Nat.ofDigitChars 10 ((if n.whole = [] then ['0'] else n.whole) ++
    ((n.fraction.getD []).take d).rightpad d '0') 0) = _ from hzero]
  split <;> simp

theorem parseUnitsExact_text (n : Decimal) {d : Nat} (hd : d ≤ 48) :
    parseUnitsExact n.text (.ofNat d) = .ok (n.value d) := by
  have htrim : trim n.text = n.shape.text := by rw [← n.text_shape, trim_text]
  obtain ⟨c, hc⟩ := List.exists_mem_of_ne_nil _ n.whole_ne
  have hmem : c ∈ n.shape.text :=
    by simp [DecimalShape.text, show n.shape.whole = n.whole from rfl, hc]
  have hnil : n.shape.text ≠ [] := List.ne_nil_of_mem hmem
  have hsign : n.shape.text ≠ ['-'] := by
    intro h
    rw [h, List.mem_singleton] at hmem
    exact absurd (n.whole_digits c hc) (by rw [hmem]; decide)
  rw [parseUnitsExact_shape hd htrim hnil hsign, n.fraction_shape, Decimal.value,
    show n.shape.negative = n.negative from rfl]
  split
  · rw [neg_one_mul]
    rfl
  · rw [one_mul]
    rfl

theorem parseUnitsExact_error {s : List Char} {d : Nat} (hd : d ≤ 48)
    (h : isDecimalText (trim s) = false ∨ trim s = [] ∨ trim s = ['-']) :
    parseUnitsExact s (.ofNat d) =
      .error (.money s!"parseUnitsExact: not a decimal number: {String.ofList s}") := by
  simp only [parseUnitsExact, JsNumber.decimals_ofNat hd, if_pos h]

/-- Numerals give their value at the scale, rounded toward zero, and all else is refused. -/
def ReadsNumerals (s : List Char) (d : Nat) : Prop :=
  (∀ v, parseUnitsExact s (.ofNat d) = .ok v ↔
      ∃ n : Numeral, n.text = trim s ∧ v = Numeral.truncate (n.value * 10 ^ d)) ∧
    ((¬∃ n : Numeral, n.text = trim s) →
      ∃ message, parseUnitsExact s (.ofNat d) = .error (.money message))

theorem readsNumerals_of_error {s : List Char} {d : Nat} {message : String}
    (hnone : ¬∃ n : Numeral, n.text = trim s)
    (herror : parseUnitsExact s (.ofNat d) = .error (.money message)) : ReadsNumerals s d := by
  refine ⟨fun v => ⟨fun hok => ?_, fun ⟨n, hn, _⟩ => absurd ⟨n, hn⟩ hnone⟩, fun _ => ⟨_, herror⟩⟩
  rw [herror] at hok
  cases hok

theorem readsNumerals_of_numeral {n : Numeral} {s : List Char} {d : Nat} (hd : d ≤ 48)
    (hn : n.text = trim s) : ReadsNumerals s d := by
  have hread (m : Numeral) (hm : m.text = trim s) :
      parseUnitsExact s (.ofNat d) = .ok (Numeral.truncate (m.value * 10 ^ d)) := by
    obtain ⟨c, hc, hdigit⟩ := m.exists_digit
    have hsign : m.text ≠ ['-'] := by
      intro h
      rw [h, List.mem_singleton] at hc
      exact absurd hdigit (by rw [hc]; decide)
    rw [parseUnitsExact_shape hd hm.symm (List.ne_nil_of_mem hc) hsign, m.truncate_value]
  refine ⟨fun v => ⟨fun hok => ⟨n, hn, ?_⟩, ?_⟩, fun hnone => absurd ⟨n, hn⟩ hnone⟩
  · rw [hread n hn] at hok
    exact (Except.ok.inj hok).symm
  · rintro ⟨m, hm, rfl⟩
    exact hread m hm

theorem not_numeral {text : List Char} (h : text.any Char.isDigit = false) :
    ¬∃ n : Numeral, n.text = text := by
  rintro ⟨n, rfl⟩
  obtain ⟨c, hc, hdigit⟩ := n.exists_digit
  exact List.any_eq_false.mp h c hc hdigit

theorem parseUnitsExact_point {s : List Char} {d : Nat} (hd : d ≤ 48)
    (h : trim s ∈ [['.'], ['-', '.']]) : parseUnitsExact s (.ofNat d) = .ok 0 := by
  have hread (negative : Bool) (n : DecimalShape)
      (hn : n = ⟨negative, [], some [], by simp, by simp⟩) (hs : trim s = n.text) :
      parseUnitsExact s (.ofNat d) = .ok 0 := by
    have hzeros : Decimal.ofDigits (Decimal.scaled d []) = 0 := by
      simp [Decimal.scaled, List.rightpad, Nat.ofDigitChars_replicate_zero]
    rw [parseUnitsExact_shape hd hs (by subst hn; cases negative <;> decide)
      (by subst hn; cases negative <;> decide)]
    subst hn
    simp [hzeros]
  rcases List.mem_pair.mp h with hs | hs
  · exact hread false _ rfl hs
  · exact hread true _ rfl hs

/-- A lone point is the only text read that should not be. -/
theorem readsNumerals_iff {d : Nat} (hd : d ≤ 48) (s : List Char) :
    ReadsNumerals s d ↔ trim s ∉ [['.'], ['-', '.']] := by
  constructor
  · intro h hpoint
    have hok := parseUnitsExact_point hd hpoint
    obtain ⟨n, hn, -⟩ := (h.1 0).mp hok
    refine not_numeral ?_ ⟨n, hn⟩
    rcases List.mem_pair.mp hpoint with hs | hs
    · rw [hs]
      decide
    · rw [hs]
      decide
  · intro hpoint
    cases hpattern : isDecimalText (trim s) with
    | false =>
      refine readsNumerals_of_error ?_ (parseUnitsExact_error hd (.inl hpattern))
      rintro ⟨n, hn⟩
      rw [isDecimalText_iff.mpr ⟨n.toDecimalShape, hn⟩] at hpattern
      cases hpattern
    | true =>
      obtain ⟨n, hn⟩ := isDecimalText_iff.mp hpattern
      by_cases hdigit : n.whole ++ n.fraction.getD [] = []
      · have hbare := n.text_of_no_digit hdigit
        simp only [hn, List.mem_cons, List.not_mem_nil, or_false, not_or] at hbare hpoint
        have hempty : trim s = [] ∨ trim s = ['-'] := by tauto
        refine readsNumerals_of_error ?_ (parseUnitsExact_error hd (.inr hempty))
        rcases hempty with hs | hs
        · rw [hs]
          exact not_numeral rfl
        · rw [hs]
          exact not_numeral (by decide)
      · exact readsNumerals_of_numeral hd (n := ⟨n, hdigit⟩) hn

theorem readsNumerals_ether : ReadsNumerals ['.', '5'] 18 ↔ trim ['.', '5'] ∉ [['.'], ['-', '.']] :=
  readsNumerals_iff (by decide) _

/-- `parseUnitsExact(".", 18)` is 0. -/
theorem not_readsNumerals_point : ¬ReadsNumerals ['.'] 18 := by
  have htrim : trim ['.'] = ['.'] := by decide
  rintro ⟨hread, -⟩
  obtain ⟨n, hn, -⟩ := (hread 0).mp (parseUnitsExact_point (by decide) (by rw [htrim]; decide))
  exact not_numeral (by rw [htrim]; decide) ⟨n, hn⟩

/-- What is written reads back, and what is read is written as the one numeral of its value. -/
theorem units_roundTrip {d : Nat} (hd : d ≤ 48) :
    (∀ v, ∃ text, formatUnitsExact v (.ofNat d) = .ok text ∧
      parseUnitsExact text (.ofNat d) = .ok v) ∧
      ∀ s v, parseUnitsExact s (.ofNat d) = .ok v →
        ∃ n : Decimal, formatUnitsExact v (.ofNat d) = .ok n.text ∧
          parseUnitsExact n.text (.ofNat d) = .ok v := by
  have hround : ∀ v, formatUnitsExact v (.ofNat d) = .ok (Decimal.ofUnits v d).text ∧
      parseUnitsExact (Decimal.ofUnits v d).text (.ofNat d) = .ok v := by
    intro v
    refine ⟨formatUnitsExact_eq v hd, ?_⟩
    rw [parseUnitsExact_text _ hd, Decimal.value_ofUnits]
  exact ⟨fun v => ⟨_, hround v⟩, fun _ v _ => ⟨_, hround v⟩⟩

theorem units_roundTrip_wei :
    (∀ v, ∃ text, formatUnitsExact v (.ofNat 18) = .ok text ∧
      parseUnitsExact text (.ofNat 18) = .ok v) ∧
      ∀ s v, parseUnitsExact s (.ofNat 18) = .ok v →
        ∃ n : Decimal, formatUnitsExact v (.ofNat 18) = .ok n.text ∧
          parseUnitsExact n.text (.ofNat 18) = .ok v :=
  units_roundTrip (show 18 ≤ 48 by decide)

end Stunks.Utils
