import Stunks.Lib.Floors
import Stunks.Utils.Money

/-! `trending.ts`: scores of a cohort, each signal against the cohort's largest. -/

namespace Stunks.Database

open Utils

inductive Signal
  | volumeAcceleration
  | uniqueTraders
  | tradeActivity
  | buyPressure
  | marketCapGrowth
  deriving DecidableEq

def Signal.all : List Signal :=
  [volumeAcceleration, uniqueTraders, tradeActivity, buyPressure, marketCapGrowth]

def Signal.key : Signal → String
  | volumeAcceleration => "volumeAcceleration"
  | uniqueTraders => "uniqueTraders"
  | tradeActivity => "tradeActivity"
  | buyPressure => "buyPressure"
  | marketCapGrowth => "marketCapGrowth"

/-- Weights and counts are whole numbers here; the code refuses weights that are not. -/
abbrev TrendingWeights := Signal → Int

def defaultTrendingWeights : TrendingWeights
  | .volumeAcceleration => 30
  | .uniqueTraders => 25
  | .tradeActivity => 20
  | .buyPressure => 15
  | .marketCapGrowth => 10

def sumSignals (f : Signal → Int) : Int :=
  f .volumeAcceleration + f .uniqueTraders + f .tradeActivity + f .buyPressure + f .marketCapGrowth

def validateWeights (weights : TrendingWeights) : List String :=
  let total := sumSignals weights
  (if total ≠ 100 then [s!"Trending weights must sum to 100, got {total}."] else []) ++
    (Signal.all.filter fun signal => weights signal < 0).map fun signal =>
      let key := signal.key
      s!"Weight {key} must be a non-negative integer."

structure TrendingInput where
  tokenId : String
  recentVolume : Int
  priorVolume : Int
  uniqueTraders : Int
  tradeCount : Int
  buyVolume : Int
  sellVolume : Int
  marketCap : Int
  priorMarketCap : Int

structure TrendingComponent where
  raw : Int
  normalisedBps : Int
  weight : Int

structure TrendingScore where
  tokenId : String
  scoreBps : Int
  components : Signal → TrendingComponent

def maxGrowthBps : Int := 10000

def growthBps (recent prior : Int) : Int :=
  if recent ≤ 0 then 0
  else if prior ≤ 0 then maxGrowthBps
  else if recent ≤ prior then 0
  else
    let growth := ratioBps (recent - prior) prior
    if growth > maxGrowthBps then maxGrowthBps else growth

def buyPressureBps (buyVolume sellVolume : Int) : Int :=
  let total := buyVolume + sellVolume
  if total ≤ 0 then 0 else ratioBps buyVolume total

def normalise (value max : Int) : Int :=
  if max ≤ 0 then 0
  else if value ≥ max then basisPoints
  else ratioBps value max

def maxOf (values : List Int) : Int :=
  values.foldl (fun best value => if value > best then value else best) 0

def component (raw max weight : Int) : TrendingComponent where
  raw := raw
  normalisedBps := normalise raw max
  weight := weight

def TrendingInput.raw (input : TrendingInput) : Signal → Int
  | .volumeAcceleration => growthBps input.recentVolume input.priorVolume
  | .uniqueTraders => max 0 input.uniqueTraders
  | .tradeActivity => max 0 input.tradeCount
  | .buyPressure => buyPressureBps input.buyVolume input.sellVolume
  | .marketCapGrowth => growthBps input.marketCap input.priorMarketCap

/-- Buy pressure is a bounded ratio already, and its own scale. -/
def cohortMax (raw : List (Signal → Int)) : Signal → Int
  | .buyPressure => basisPoints
  | signal => maxOf (raw.map fun entry => entry signal)

def scoreOf (weights : TrendingWeights) (max : Signal → Int) (input : TrendingInput) :
    TrendingScore :=
  let components := fun signal => component (input.raw signal) (max signal) (weights signal)
  let weighted := sumSignals fun signal => (components signal).normalisedBps * weights signal
  { tokenId := input.tokenId, scoreBps := weighted.tdiv 100, components }

def scoreTrending (inputs : List TrendingInput)
    (weights : optParam TrendingWeights defaultTrendingWeights) :
    Except JsError (List TrendingScore) :=
  let errors := validateWeights weights
  if errors.length > 0 then .error (.error (" ".intercalate errors))
  else if inputs.length = 0 then .ok []
  else .ok (inputs.map (scoreOf weights (cohortMax (inputs.map TrendingInput.raw))))

theorem ratioBps_of_nonneg {part whole : Int} (hpart : 0 ≤ part) (hwhole : 0 < whole) :
    ratioBps part whole = part * basisPoints / whole := by
  rw [ratioBps, if_neg (by omega), Int.tdiv_eq_ediv_of_nonneg (mul_nonneg hpart (by decide))]

theorem ratioBps_nonneg {part whole : Int} (hpart : 0 ≤ part) : 0 ≤ ratioBps part whole := by
  unfold ratioBps
  split
  · exact le_rfl
  · exact Int.tdiv_nonneg (mul_nonneg hpart (by decide)) (by omega)

theorem ratioBps_le {part whole : Int} (hpart : 0 ≤ part) (hle : part ≤ whole)
    (hwhole : 0 < whole) :
    ratioBps part whole ≤ basisPoints := by
  rw [ratioBps_of_nonneg hpart hwhole]
  refine Int.ediv_le_of_le_mul hwhole ?_
  rw [mul_comm]
  exact mul_le_mul_of_nonneg_left hle (by decide)

theorem ratioBps_le_of_cross {a b c d : Int} (ha : 0 ≤ a) (hb : 0 < b) (hc : 0 ≤ c) (hd : 0 < d)
    (h : a * d ≤ c * b) : ratioBps a b ≤ ratioBps c d := by
  rw [ratioBps_of_nonneg ha hb, ratioBps_of_nonneg hc hd]
  refine Floors.ediv_le_ediv_of_cross hb hd ?_
  calc a * basisPoints * d = a * d * basisPoints := by ring
    _ ≤ c * b * basisPoints := mul_le_mul_of_nonneg_right h (by decide)
    _ = c * basisPoints * b := by ring

theorem growthBps_cases (recent prior : Int) :
    ((recent ≤ 0 ∨ 0 < prior ∧ recent ≤ prior) ∧ growthBps recent prior = 0) ∨
      (0 < recent ∧ prior ≤ 0 ∧ growthBps recent prior = maxGrowthBps) ∨
      (0 < prior ∧ prior < recent ∧
        growthBps recent prior = min (ratioBps (recent - prior) prior) maxGrowthBps) := by
  unfold growthBps
  split_ifs with hrecent hprior hle
  · exact .inl ⟨.inl hrecent, rfl⟩
  · exact .inr (.inl ⟨not_le.mp hrecent, hprior, rfl⟩)
  · exact .inl ⟨.inr ⟨not_le.mp hprior, hle⟩, rfl⟩
  · refine .inr (.inr ⟨not_le.mp hprior, not_le.mp hle, ?_⟩)
    dsimp only
    split <;> omega

theorem growthBps_nonneg (recent prior : Int) : 0 ≤ growthBps recent prior := by
  rcases growthBps_cases recent prior with ⟨-, h⟩ | ⟨-, -, h⟩ | ⟨-, hlt, h⟩
  · exact h.ge
  · rw [h]
    decide
  · rw [h]
    exact le_min (ratioBps_nonneg (by omega)) (by decide)

theorem growthBps_le (recent prior : Int) : growthBps recent prior ≤ maxGrowthBps := by
  rcases growthBps_cases recent prior with ⟨-, h⟩ | ⟨-, -, h⟩ | ⟨-, -, h⟩
  · rw [h]
    decide
  · exact h.le
  · rw [h]
    exact min_le_right _ _

theorem growthBps_mono {recent recent' : Int} (prior : Int) (h : recent ≤ recent') :
    growthBps recent prior ≤ growthBps recent' prior := by
  rcases growthBps_cases recent prior with ⟨-, hgrowth⟩ | ⟨hpos, hprior, hgrowth⟩ |
    ⟨hprior, hlt, hgrowth⟩
  · rw [hgrowth]
    exact growthBps_nonneg recent' prior
  · rw [growthBps.eq_1 recent' prior, if_neg (by omega), if_pos hprior]
    exact growthBps_le recent prior
  · rcases growthBps_cases recent' prior with ⟨hnone, -⟩ | ⟨-, hnone, -⟩ | ⟨-, -, hgrowth'⟩
    · omega
    · omega
    · rw [hgrowth, hgrowth']
      refine min_le_min_right _ (ratioBps_le_of_cross (by omega) hprior (by omega) hprior ?_)
      exact mul_le_mul_of_nonneg_right (by omega) hprior.le

theorem buyPressureBps_mono {buyVolume buyVolume' sellVolume : Int} (hbuy : 0 ≤ buyVolume)
    (hsell : 0 ≤ sellVolume) (h : buyVolume ≤ buyVolume') :
    buyPressureBps buyVolume sellVolume ≤ buyPressureBps buyVolume' sellVolume := by
  unfold buyPressureBps
  dsimp only
  split
  · split
    · exact le_rfl
    · exact ratioBps_nonneg (by omega)
  · rw [if_neg (by omega)]
    refine ratioBps_le_of_cross hbuy (by omega) (by omega) (by omega) ?_
    nlinarith

section Normalise

variable {value value' max max' : Int}

theorem normalise_nonneg (h : 0 ≤ value) : 0 ≤ normalise value max := by
  unfold normalise
  split_ifs
  · exact le_rfl
  · decide
  · exact ratioBps_nonneg h

theorem normalise_le (h : 0 ≤ value) : normalise value max ≤ basisPoints := by
  unfold normalise
  split_ifs with hmax hge
  · decide
  · exact le_rfl
  · exact ratioBps_le h (by omega) (by omega)

theorem normalise_anti (hvalue : 0 ≤ value) (hle : value ≤ max) (h : max ≤ max') :
    normalise value max' ≤ normalise value max := by
  by_cases hmax : max ≤ 0
  · obtain rfl : value = 0 := by omega
    rw [normalise, normalise, if_pos hmax]
    split_ifs
    · exact le_rfl
    · simp [ratioBps]
  · by_cases hge : value ≥ max
    · rw [normalise.eq_1 value max, if_neg hmax, if_pos hge]
      exact normalise_le hvalue
    · rw [normalise, if_neg (by omega), if_neg (by omega), normalise, if_neg hmax, if_neg hge]
      refine ratioBps_le_of_cross hvalue (by omega) hvalue (by omega) ?_
      exact mul_le_mul_of_nonneg_left h hvalue

theorem normalise_mono (hvalue : 0 ≤ value) (h : value ≤ value') (hmax : max ≤ max')
    (hbound : value' < max' → max' ≤ max) : normalise value max ≤ normalise value' max' := by
  by_cases hlt : value' < max'
  · obtain rfl : max = max' := le_antisymm hmax (hbound hlt)
    rw [normalise, normalise, if_neg (show ¬max ≤ 0 by omega), if_neg (by omega), if_neg (by omega),
      if_neg (by omega)]
    refine ratioBps_le_of_cross hvalue (by omega) (by omega) (by omega) ?_
    exact mul_le_mul_of_nonneg_right h (by omega)
  · by_cases hzero : max' ≤ 0
    · rw [normalise, if_pos (by omega), normalise, if_pos hzero]
    · rw [normalise.eq_1 value' max', if_neg hzero, if_pos (by omega)]
      exact normalise_le hvalue

end Normalise

theorem foldl_le_iff (values : List Int) (start bound : Int) :
    values.foldl (fun best value => if value > best then value else best) start ≤ bound ↔
      start ≤ bound ∧ ∀ value ∈ values, value ≤ bound := by
  induction values generalizing start with
  | nil => simp
  | cons value values ih =>
    rw [List.foldl_cons, ih, List.forall_mem_cons, ← and_assoc]
    refine and_congr_left fun _ => ?_
    split <;> omega

theorem maxOf_le_iff {values : List Int} {bound : Int} :
    maxOf values ≤ bound ↔ 0 ≤ bound ∧ ∀ value ∈ values, value ≤ bound :=
  foldl_le_iff values 0 bound

theorem le_maxOf {values : List Int} {value : Int} (h : value ∈ values) : value ≤ maxOf values :=
  (maxOf_le_iff.mp le_rfl).2 value h

structure TrendingInput.Nonneg (input : TrendingInput) : Prop where
  recentVolume : 0 ≤ input.recentVolume
  priorVolume : 0 ≤ input.priorVolume
  uniqueTraders : 0 ≤ input.uniqueTraders
  tradeCount : 0 ≤ input.tradeCount
  buyVolume : 0 ≤ input.buyVolume
  sellVolume : 0 ≤ input.sellVolume
  marketCap : 0 ≤ input.marketCap
  priorMarketCap : 0 ≤ input.priorMarketCap

/-- The same token with one of the inputs that count for it raised. -/
inductive TrendingInput.Raised (t : TrendingInput) : TrendingInput → Prop
  | recentVolume {x : Int} (h : t.recentVolume ≤ x) : Raised t { t with recentVolume := x }
  | uniqueTraders {x : Int} (h : t.uniqueTraders ≤ x) : Raised t { t with uniqueTraders := x }
  | tradeCount {x : Int} (h : t.tradeCount ≤ x) : Raised t { t with tradeCount := x }
  | buyVolume {x : Int} (h : t.buyVolume ≤ x) : Raised t { t with buyVolume := x }
  | marketCap {x : Int} (h : t.marketCap ≤ x) : Raised t { t with marketCap := x }

theorem raw_nonneg {t : TrendingInput} (h : t.Nonneg) (signal : Signal) : 0 ≤ t.raw signal := by
  cases signal with
  | volumeAcceleration => exact growthBps_nonneg _ _
  | uniqueTraders => exact le_max_left _ _
  | tradeActivity => exact le_max_left _ _
  | buyPressure =>
    simp only [TrendingInput.raw, buyPressureBps]
    split
    · exact le_rfl
    · exact ratioBps_nonneg h.buyVolume
  | marketCapGrowth => exact growthBps_nonneg _ _

theorem raw_mono {t t' : TrendingInput} (h : t.Nonneg) (hraised : t.Raised t') (signal : Signal) :
    t.raw signal ≤ t'.raw signal := by
  cases hraised with
  | recentVolume hle =>
    cases signal with
    | volumeAcceleration => exact growthBps_mono _ hle
    | _ => exact le_rfl
  | uniqueTraders hle =>
    cases signal with
    | uniqueTraders => exact max_le_max_left 0 hle
    | _ => exact le_rfl
  | tradeCount hle =>
    cases signal with
    | tradeActivity => exact max_le_max_left 0 hle
    | _ => exact le_rfl
  | buyVolume hle =>
    cases signal with
    | buyPressure => exact buyPressureBps_mono h.buyVolume h.sellVolume hle
    | _ => exact le_rfl
  | marketCap hle =>
    cases signal with
    | marketCapGrowth => exact growthBps_mono _ hle
    | _ => exact le_rfl

theorem raw_buyPressure_le {t : TrendingInput} (h : t.Nonneg) :
    t.raw .buyPressure ≤ basisPoints := by
  simp only [TrendingInput.raw, buyPressureBps]
  split
  · decide
  · exact ratioBps_le h.buyVolume (by have := h.sellVolume; omega) (by omega)

section Cohort

theorem maxOf_set {values : List Int} {i : Nat} {v v' : Int} (hi : values[i]? = some v)
    (hle : v ≤ v') : maxOf values ≤ maxOf (values.set i v') ∧
      maxOf (values.set i v') ≤ max (maxOf values) v' := by
  have hlength : i < values.length := (List.getElem?_eq_some_iff.mp hi).1
  constructor
  · refine maxOf_le_iff.mpr ⟨(maxOf_le_iff.mp le_rfl).1, fun u hu => ?_⟩
    obtain ⟨j, hj⟩ := List.mem_iff_getElem?.mp hu
    by_cases hij : i = j
    · subst hij
      obtain rfl : v = u := Option.some.inj (hi.symm.trans hj)
      exact hle.trans (le_maxOf (List.mem_set hlength v'))
    · refine le_maxOf (List.mem_of_getElem? (i := j) ?_)
      rw [List.getElem?_set_ne hij, hj]
  · refine maxOf_le_iff.mpr ⟨le_max_of_le_left (maxOf_le_iff.mp le_rfl).1, fun u hu => ?_⟩
    rcases List.mem_or_eq_of_mem_set hu with hmem | rfl
    · exact le_max_of_le_left (le_maxOf hmem)
    · exact le_max_right _ _

variable {inputs : List TrendingInput}

theorem le_cohortMax {t : TrendingInput} (hnonneg : t.Nonneg) (ht : t ∈ inputs) (signal : Signal) :
    t.raw signal ≤ cohortMax (inputs.map TrendingInput.raw) signal := by
  have hmem : t.raw signal ∈ (inputs.map TrendingInput.raw).map fun entry => entry signal :=
    List.mem_map_of_mem (List.mem_map_of_mem ht)
  cases signal with
  | buyPressure => exact raw_buyPressure_le hnonneg
  | _ => exact le_maxOf hmem

/-- Raising a token's figures moves the cohort's maxima up, and at most to the token's own. -/
theorem cohortMax_set {i : Nat} {t t' : TrendingInput} (hi : inputs[i]? = some t)
    (hle : ∀ signal, t.raw signal ≤ t'.raw signal) (signal : Signal) :
    cohortMax (inputs.map TrendingInput.raw) signal ≤
        cohortMax ((inputs.set i t').map TrendingInput.raw) signal ∧
      cohortMax ((inputs.set i t').map TrendingInput.raw) signal ≤
        max (cohortMax (inputs.map TrendingInput.raw) signal) (t'.raw signal) := by
  have hvalue : ((inputs.map TrendingInput.raw).map fun entry => entry signal)[i]? =
      some (t.raw signal) := by
    rw [List.getElem?_map, List.getElem?_map, hi]
    rfl
  have hset := maxOf_set hvalue (hle signal)
  rw [← List.map_set (f := fun entry : Signal → Int => entry signal), ← List.map_set] at hset
  cases signal with
  | buyPressure => exact ⟨le_rfl, le_max_left _ _⟩
  | _ => exact hset

end Cohort

theorem sumSignals_mono {f g : Signal → Int} (h : ∀ signal, f signal ≤ g signal) :
    sumSignals f ≤ sumSignals g := by
  unfold sumSignals
  have h1 := h .volumeAcceleration
  have h2 := h .uniqueTraders
  have h3 := h .tradeActivity
  have h4 := h .buyPressure
  have h5 := h .marketCapGrowth
  omega

section Scores

variable {weights : TrendingWeights}

theorem validateWeights_eq_nil (h : validateWeights weights = []) :
    sumSignals weights = 100 ∧ ∀ signal, 0 ≤ weights signal := by
  obtain ⟨htotal, hfields⟩ := List.append_eq_nil_iff.mp h
  have hnone := List.filter_eq_nil_iff.mp (List.map_eq_nil_iff.mp hfields)
  refine ⟨?_, fun signal => ?_⟩
  · by_contra hne
    rw [if_pos hne] at htotal
    cases htotal
  · have hmem : signal ∈ Signal.all := by cases signal <;> decide
    simpa using hnone signal hmem

structure TrendingScore.InScale (score : TrendingScore) : Prop where
  score_nonneg : 0 ≤ score.scoreBps
  score_le : score.scoreBps ≤ basisPoints
  component_nonneg : ∀ signal, 0 ≤ (score.components signal).normalisedBps
  component_le : ∀ signal, (score.components signal).normalisedBps ≤ basisPoints

theorem scoreOf_nonneg (hweights : ∀ signal, 0 ≤ weights signal) {t : TrendingInput}
    (ht : t.Nonneg) (max : Signal → Int) :
    0 ≤ sumSignals fun signal => normalise (t.raw signal) (max signal) * weights signal := by
  have hterms : ∀ signal, 0 ≤ normalise (t.raw signal) (max signal) * weights signal :=
    fun signal => mul_nonneg (normalise_nonneg (raw_nonneg ht signal)) (hweights signal)
  exact sumSignals_mono (f := fun _ => 0) hterms

theorem scoreBps_eq {t : TrendingInput} {max : Signal → Int}
    (h : 0 ≤ sumSignals fun signal => normalise (t.raw signal) (max signal) * weights signal) :
    (scoreOf weights max t).scoreBps =
      (sumSignals fun signal => normalise (t.raw signal) (max signal) * weights signal) / 100 :=
  Int.tdiv_eq_ediv_of_nonneg h

theorem scoreOf_inScale (h : validateWeights weights = []) {t : TrendingInput} (ht : t.Nonneg)
    (max : Signal → Int) : (scoreOf weights max t).InScale := by
  obtain ⟨htotal, hweights⟩ := validateWeights_eq_nil h
  have hnonneg := scoreOf_nonneg hweights ht max
  have hle : (sumSignals fun signal => normalise (t.raw signal) (max signal) * weights signal) ≤
      sumSignals fun signal => basisPoints * weights signal :=
    sumSignals_mono fun signal =>
      mul_le_mul_of_nonneg_right (normalise_le (raw_nonneg ht signal)) (hweights signal)
  have hfull : (sumSignals fun signal => basisPoints * weights signal) = basisPoints * 100 := by
    rw [← htotal]
    unfold sumSignals
    ring
  refine ⟨?_, ?_, fun signal => normalise_nonneg (raw_nonneg ht signal),
    fun signal => normalise_le (raw_nonneg ht signal)⟩
  · rw [scoreBps_eq hnonneg]
    exact Int.ediv_nonneg hnonneg (by decide)
  · rw [scoreBps_eq hnonneg]
    omega

theorem scoreOf_le (hweights : ∀ signal, 0 ≤ weights signal) {t t' : TrendingInput}
    {max max' : Signal → Int} (ht : t.Nonneg)
    (h : ∀ signal, normalise (t.raw signal) (max signal) ≤ normalise (t'.raw signal) (max' signal)) :
    (scoreOf weights max t).scoreBps ≤ (scoreOf weights max' t').scoreBps := by
  have hnonneg := scoreOf_nonneg hweights ht max
  have hle : (sumSignals fun signal => normalise (t.raw signal) (max signal) * weights signal) ≤
      sumSignals fun signal => normalise (t'.raw signal) (max' signal) * weights signal :=
    sumSignals_mono fun signal => mul_le_mul_of_nonneg_right (h signal) (hweights signal)
  rw [scoreBps_eq hnonneg, scoreBps_eq (hnonneg.trans hle)]
  exact Int.ediv_le_ediv (by decide) hle

theorem scoreTrending_ok (h : validateWeights weights = []) (inputs : List TrendingInput) :
    scoreTrending inputs weights =
      .ok (inputs.map (scoreOf weights (cohortMax (inputs.map TrendingInput.raw)))) := by
  rw [scoreTrending, h, if_neg (by decide)]
  split
  · rename_i hempty
    rw [List.length_eq_zero_iff.mp hempty]
    rfl
  · rfl

theorem scores_tokenIds (max : Signal → Int) (inputs : List TrendingInput) :
    (inputs.map (scoreOf weights max)).map TrendingScore.tokenId =
      inputs.map TrendingInput.tokenId :=
  List.map_map

theorem TrendingInput.Raised.tokenId_eq {t t' : TrendingInput} (h : t.Raised t') :
    t'.tokenId = t.tokenId := by
  cases h <;> rfl

theorem set_tokenIds {inputs : List TrendingInput} {i : Nat} {t t' : TrendingInput}
    (hi : inputs[i]? = some t) (hraised : t.Raised t') :
    (inputs.set i t').map TrendingInput.tokenId = inputs.map TrendingInput.tokenId := by
  rw [List.map_set, hraised.tokenId_eq]
  refine List.ext_getElem? fun j => ?_
  by_cases hij : i = j
  · subst hij
    rw [List.getElem?_set_self (by simpa using (List.getElem?_eq_some_iff.mp hi).1),
      List.getElem?_map, hi, Option.map_some]
  · rw [List.getElem?_set_ne hij]

/-- Each score is that of its token and stays within the scale, and raising an input of one token
never lowers its own score and never raises another. -/
theorem scoreTrending_raised (hweights : validateWeights weights = []) {inputs : List TrendingInput}
    (hinputs : ∀ t ∈ inputs, t.Nonneg) :
    ∃ scores, scoreTrending inputs weights = .ok scores ∧
      scores.map TrendingScore.tokenId = inputs.map TrendingInput.tokenId ∧
      (∀ score ∈ scores, score.InScale) ∧
      ∀ i t t', inputs[i]? = some t → t.Raised t' →
        ∃ scores', scoreTrending (inputs.set i t') weights = .ok scores' ∧
          scores'.map TrendingScore.tokenId = inputs.map TrendingInput.tokenId ∧
          ∀ j score, scores[j]? = some score → ∃ score', scores'[j]? = some score' ∧
            (j = i → score.scoreBps ≤ score'.scoreBps) ∧
            (j ≠ i → score'.scoreBps ≤ score.scoreBps) := by
  refine ⟨_, scoreTrending_ok hweights inputs, scores_tokenIds _ _, fun score hscore => ?_,
    fun i t t' hi hraised => ⟨_, scoreTrending_ok hweights _,
      (scores_tokenIds _ _).trans (set_tokenIds hi hraised), fun j score hj => ?_⟩⟩
  · obtain ⟨t, ht, rfl⟩ := List.mem_map.mp hscore
    exact scoreOf_inScale hweights (hinputs t ht) _
  · rw [List.getElem?_map, Option.map_eq_some_iff] at hj
    obtain ⟨u, hu, rfl⟩ := hj
    have hpos := (validateWeights_eq_nil hweights).2
    have hu_nonneg := hinputs u (List.mem_of_getElem? hu)
    have hlength : i < inputs.length := (List.getElem?_eq_some_iff.mp hi).1
    have hraw := raw_mono (hinputs t (List.mem_of_getElem? hi)) hraised
    have hmax := cohortMax_set hi hraw
    by_cases hij : j = i
    · subst hij
      obtain rfl : t = u := Option.some.inj (hi.symm.trans hu)
      refine ⟨_, by rw [List.getElem?_map, List.getElem?_set_self hlength, Option.map_some],
        fun _ => scoreOf_le hpos hu_nonneg fun signal => ?_, fun hne => absurd rfl hne⟩
      refine normalise_mono (raw_nonneg hu_nonneg signal) (hraw signal)
        (hmax signal).1 fun hlt => ?_
      exact (le_max_iff.mp (hmax signal).2).resolve_right (not_le.mpr hlt)
    · refine ⟨_, by rw [List.getElem?_map, List.getElem?_set_ne (Ne.symm hij), hu, Option.map_some],
        fun heq => absurd heq hij, fun _ => scoreOf_le hpos hu_nonneg fun signal => ?_⟩
      exact normalise_anti (raw_nonneg hu_nonneg signal)
        (le_cohortMax hu_nonneg (List.mem_of_getElem? hu) signal) (hmax signal).1

def flatToken : TrendingInput where
  tokenId := "flat"
  recentVolume := 10
  priorVolume := 10
  uniqueTraders := 10
  tradeCount := 20
  buyVolume := 5
  sellVolume := 5
  marketCap := 100
  priorMarketCap := 100

def busyToken : TrendingInput where
  tokenId := "busy"
  recentVolume := 15
  priorVolume := 10
  uniqueTraders := 20
  tradeCount := 40
  buyVolume := 10
  sellVolume := 5
  marketCap := 120
  priorMarketCap := 100

theorem scoreTrending_raised_traded :
    ∃ scores scores', scoreTrending [flatToken, busyToken] defaultTrendingWeights = .ok scores ∧
      scoreTrending [{ flatToken with tradeCount := 80 }, busyToken] defaultTrendingWeights =
        .ok scores' ∧
      scores.map TrendingScore.tokenId = ["flat", "busy"] ∧
      scores'.map TrendingScore.tokenId = ["flat", "busy"] ∧
      (∀ score ∈ scores, score.InScale) ∧
      (∀ j score, scores[j]? = some score → ∃ score', scores'[j]? = some score' ∧
        (j = 0 → score.scoreBps ≤ score'.scoreBps) ∧
        (j ≠ 0 → score'.scoreBps ≤ score.scoreBps)) ∧
      scores.map TrendingScore.scoreBps = [3000, 9499] ∧
      scores'.map TrendingScore.scoreBps = [4000, 8499] := by
  have hnonneg : ∀ t ∈ [flatToken, busyToken], t.Nonneg := by
    simp only [List.forall_mem_cons, List.not_mem_nil, false_implies, implies_true, and_true]
    exact ⟨by constructor <;> decide, by constructor <;> decide⟩
  have hweights : validateWeights defaultTrendingWeights = [] := by decide
  obtain ⟨scores, hscores, hids, hscale, hraised⟩ := scoreTrending_raised hweights hnonneg
  obtain ⟨scores', hscores', hids', hsame⟩ := hraised 0 _ _ rfl
    (.tradeCount (x := 80) (by decide))
  refine ⟨scores, scores', hscores, hscores', hids, hids', hscale, hsame, ?_, ?_⟩
  · obtain rfl := Except.ok.inj hscores
    decide
  · obtain rfl := Except.ok.inj hscores'
    decide

end Scores

end Stunks.Database
