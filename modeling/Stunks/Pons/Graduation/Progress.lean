import Stunks.Pons.Client.Reads
import Stunks.Pons.Curve.Run

/-! `graduation/progress.ts`, and what a curve has raised once its sellable tokens are gone. -/

namespace Stunks.Pons

open Utils

structure GraduationProgress where
  progressBps : Int
  realQuoteReserve : Int
  graduationThreshold : Int
  sellableTokens : Int
  readyToGraduate : Bool
  phase : GraduationPhase
  deriving DecidableEq

def computeGraduationProgress (realQuoteReserve graduationThreshold sellableTokens : Int)
    (phase : GraduationPhase) : GraduationProgress :=
  -- anything past notGraduated has reached the threshold
  let reachedThreshold := phase ≠ .notGraduated
  let rawBps := ratioBps realQuoteReserve graduationThreshold
  { progressBps :=
      if reachedThreshold then basisPoints
      else if rawBps > basisPoints then basisPoints
      else rawBps
    realQuoteReserve
    graduationThreshold
    sellableTokens
    readyToGraduate := phase = .notGraduated ∧ sellableTokens = 0
    phase }

theorem progressBps_of_reached {raised threshold : Int} (hthreshold : 0 < threshold)
    (h : threshold ≤ raised) (sellableTokens : Int) (phase : GraduationPhase) :
    (computeGraduationProgress raised threshold sellableTokens phase).progressBps = 10000 := by
  have hraw := basisPoints_le_ratioBps hthreshold h
  unfold computeGraduationProgress
  dsimp only
  split
  · rfl
  · split
    · rfl
    · rename_i hle
      exact le_antisymm (not_lt.mp hle) hraw

theorem computeReservedTokens_ok {supply phantomQuote graduationThreshold reservedTokens : Int}
    (hsupply : 0 < supply) (hphantom : 0 < phantomQuote) (hthreshold : 0 < graduationThreshold)
    (h : computeReservedTokens supply phantomQuote graduationThreshold = .ok reservedTokens) :
    0 ≤ reservedTokens ∧
      reservedTokens * (phantomQuote + graduationThreshold) ≤ supply * phantomQuote := by
  have hsum : 0 < phantomQuote + graduationThreshold := by omega
  have hnum : 0 ≤ supply * phantomQuote := (mul_pos hsupply hphantom).le
  rw [computeReservedTokens, if_neg (by omega), mulDiv, if_neg (by omega),
    divide_of_nonneg hnum hsum] at h
  obtain rfl := Except.ok.inj h
  exact ⟨Int.ediv_nonneg hnum hsum.le, Int.ediv_mul_le _ hsum.ne'⟩

/-- A buy that may not touch the allocation of the graduated pool. -/
def Trade.Reserving (reservedTokens : Int) : Trade → Prop
  | .buy _ _ _ _ reserved => reserved = reservedTokens
  | .sell _ _ _ => True

theorem Accepts.reserved_le {r r' : Reserves} {t : Trade} {reservedTokens : Int}
    (ht : t.Reserving reservedTokens) (hr : reservedTokens ≤ r.tokenReserve) (h : Accepts r t r') :
    reservedTokens ≤ r'.tokenReserve := by
  cases t with
  | buy quoteIn fee tax snipe reserved =>
    obtain ⟨step, hstep, h⟩ := bind_eq_ok.mp h
    obtain rfl := Except.ok.inj h
    have hle : step.tokensOut ≤ r.tokenReserve - reserved :=
      (CurveBuyMathInput.fills_of_ok hstep).tokensOut_le
    have heq : reserved = reservedTokens := ht
    show reservedTokens ≤ r.tokenReserve - step.tokensOut
    omega
  | sell tokensIn fee tax =>
    obtain ⟨step, hstep, h⟩ := bind_eq_ok.mp h
    obtain rfl := Except.ok.inj h
    have hpos : 0 < tokensIn := (CurveSellMathInput.computeCurveSell_ok hstep).1
    show reservedTokens ≤ r.tokenReserve + tokensIn
    omega

theorem trades_reserved_le {r r' : Reserves} {ts : List Trade} {reservedTokens : Int}
    (hts : ∀ t ∈ ts, t.Reserving reservedTokens) (hr : reservedTokens ≤ r.tokenReserve)
    (h : Trace Accepts r ts r') : reservedTokens ≤ r'.tokenReserve := by
  induction h with
  | nil => exact hr
  | cons hstep _ ih =>
    obtain ⟨ht, hts⟩ := List.forall_mem_cons.mp hts
    exact ih hts (hstep.reserved_le ht hr)

/-- The two descriptions of graduation.  No run of trades sells the pool's allocation, and one
that sells all the rest has raised the threshold. -/
theorem sold_out_reaches {supply phantomQuote graduationThreshold reservedTokens : Int}
    {ts : List Trade} {r : Reserves} (hsupply : 0 < supply) (hphantom : 0 < phantomQuote)
    (hthreshold : 0 < graduationThreshold)
    (hreserved : computeReservedTokens supply phantomQuote graduationThreshold = .ok reservedTokens)
    (hts : ∀ t ∈ ts, t.Reserving reservedTokens) (h : Trace Accepts ⟨phantomQuote, supply⟩ ts r) :
    reservedTokens ≤ r.tokenReserve ∧
      (r.tokenReserve = reservedTokens →
        graduationThreshold ≤ r.pricingQuoteReserve - phantomQuote ∧
          ∀ phase, (computeGraduationProgress (r.pricingQuoteReserve - phantomQuote)
            graduationThreshold (r.tokenReserve - reservedTokens) phase).progressBps = 10000) := by
  obtain ⟨-, hle⟩ := computeReservedTokens_ok hsupply hphantom hthreshold hreserved
  have hstart : reservedTokens ≤ supply := by
    have : reservedTokens * (phantomQuote + graduationThreshold) ≤
        supply * (phantomQuote + graduationThreshold) :=
      hle.trans (mul_le_mul_of_nonneg_left (by omega) hsupply.le)
    exact le_of_mul_le_mul_right this (by omega)
  refine ⟨trades_reserved_le hts hstart h, fun hsold => ?_⟩
  obtain ⟨hpos, hproduct⟩ := trades_product (r := ⟨phantomQuote, supply⟩) ⟨hphantom, hsupply⟩ h
  -- the product has not fallen, and the allocation is at most its share of the supply
  have hraised : phantomQuote + graduationThreshold ≤ r.pricingQuoteReserve := by
    have hmul : (phantomQuote + graduationThreshold) * reservedTokens ≤
        r.pricingQuoteReserve * reservedTokens :=
      calc (phantomQuote + graduationThreshold) * reservedTokens
        _ = reservedTokens * (phantomQuote + graduationThreshold) := mul_comm ..
        _ ≤ supply * phantomQuote := hle
        _ = phantomQuote * supply := mul_comm ..
        _ ≤ r.pricingQuoteReserve * r.tokenReserve := hproduct
        _ = r.pricingQuoteReserve * reservedTokens := by rw [hsold]
    exact le_of_mul_le_mul_right hmul (hsold ▸ hpos.token)
  have hreached : graduationThreshold ≤ r.pricingQuoteReserve - phantomQuote := by omega
  exact ⟨hreached, progressBps_of_reached hthreshold hreached _⟩

/-- A buy, a sell and a clamped buy. -/
theorem sold_out_reaches_clamped :
    (33 : Int) ≤ (⟨33, 33⟩ : Reserves).tokenReserve ∧
      ((⟨33, 33⟩ : Reserves).tokenReserve = 33 →
        (20 : Int) ≤ (⟨33, 33⟩ : Reserves).pricingQuoteReserve - 10 ∧
          ∀ phase, (computeGraduationProgress ((⟨33, 33⟩ : Reserves).pricingQuoteReserve - 10) 20
            ((⟨33, 33⟩ : Reserves).tokenReserve - 33) phase).progressBps = 10000) :=
  @sold_out_reaches 100 10 20 33 _ _ (by decide) (by decide) (by decide) (by decide)
    (show ∀ t ∈ [Trade.buy 5 100 100 0 33, .sell 20 100 100, .buy 1000 100 100 0 33],
      t.Reserving 33 by
        simp [Trade.Reserving])
    (.cons (show Accepts _ _ ⟨15, 67⟩ by decide) (.cons (show Accepts _ _ ⟨12, 87⟩ by decide)
      (.cons (by decide) .nil)))

end Stunks.Pons
