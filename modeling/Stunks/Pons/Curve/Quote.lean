import Stunks.Pons.Client.Reads
import Stunks.Pons.Curve.Math
import Stunks.Pons.Curve.SnipeTax

/-! `curve/quote.ts`: a buy is quoted by local math or by simulation, a sell by local math. -/

namespace Stunks.Pons

open Utils

inductive QuoteSource
  | localMath
  | simulation
  deriving DecidableEq

inductive QuoteErrorCode
  | curveGraduated
  | zeroAmount
  | insufficientLiquidity
  | simulationReverted
  | rpcUnavailable
  deriving DecidableEq

structure Quote where
  source : QuoteSource
  amountIn : Int
  amountOut : Int
  minAmountOut : Int
  feeAmount : Int
  creatorTaxAmount : Int
  snipeTaxAmount : Int
  snipeTaxBps : Int
  recipientExempt : Bool
  priceImpactBps : Int
  partialFill : Bool
  deriving DecidableEq

inductive QuoteResult
  | quote (quote : Quote)
  | error (code : QuoteErrorCode) (message : String)
  deriving DecidableEq

structure ClientError where
  shortMessage : Option String := none
  message : String

def describeError (error : ClientError) : String := error.shortMessage.getD error.message

structure QuoteClient where
  /-- `readSnipeTaxExempt` and `readCurrentSnipeTaxBps`, of a curve and a recipient -/
  readSnipeTax : Indexer.Address → Indexer.Address → Except ClientError (Bool × Int)
  /-- `simulateContract` of `buy` -/
  simulateBuy : (curve : Indexer.Address) → (quoteIn : Int) → (recipient : Indexer.Address) →
    (value : Int) → (account : Indexer.Address) → Except ClientError Int

structure QuoteBuyArgs where
  state : CurveState
  quoteIn : Int
  slippageBps : JsNumber
  recipient : Indexer.Address
  nowSeconds : Int
  payer : Option Indexer.Address := none

namespace QuoteBuyArgs

variable (args : QuoteBuyArgs)

def mathInput (snipeTaxBps : Int) : CurveBuyMathInput :=
  { args.state with quoteIn := args.quoteIn, snipeTaxBps }

def mustSimulate (recipientExempt : Bool) : Bool :=
  requiresSimulation args.state.launchedAt args.state.snipeTaxSeconds args.nowSeconds recipientExempt

def graduatedError : QuoteResult :=
  .error .curveGraduated "This curve has finished. Trading has moved to its Uniswap V4 pool."

end QuoteBuyArgs

namespace QuoteClient

variable (client : QuoteClient)

def simulated (args : QuoteBuyArgs) : Except ClientError Int :=
  let payer := args.payer.getD args.recipient
  client.simulateBuy args.state.curve args.quoteIn args.recipient
    (if isNativeQuote args.state.pairToken then args.quoteIn else 0)
    (if payer = 0 then args.recipient else payer)

/-- What is reported of `amountOut`.  The fields that the local math has not computed are those of
the whole amount, 0 and false. -/
def report (args : QuoteBuyArgs) (recipientExempt : Bool) (snipeTaxBps : Int)
    (localResult : Option CurveBuyMathResult) (source : QuoteSource) (amountOut : Int) :
    Except JsError QuoteResult := do
  let state := args.state
  let feeAmount ← match localResult with
    | some result => pure result.feeAmount
    | none => applyBps args.quoteIn state.feeBps
  let creatorTaxAmount ← match localResult with
    | some result => pure result.creatorTaxAmount
    | none => applyBps args.quoteIn state.creatorTaxBps
  let snipeTaxAmount ← match localResult with
    | some result => pure result.snipeTaxAmount
    | none => applyBps args.quoteIn snipeTaxBps
  let netIn := match localResult with
    | some result => result.net
    | none => 0
  let priceImpactBps :=
    if netIn > 0 then computePriceImpactBps netIn state.pricingQuoteReserve state.tokenReserve
    else 0
  let minAmountOut ← applySlippageFloor amountOut args.slippageBps
  return .quote {
    source
    amountIn := args.quoteIn
    amountOut
    minAmountOut
    feeAmount
    creatorTaxAmount
    snipeTaxAmount
    snipeTaxBps
    recipientExempt
    priceImpactBps
    partialFill := localResult.any fun result => result.partialFill }

def quoteSimulated (args : QuoteBuyArgs) (recipientExempt : Bool) (snipeTaxBps : Int)
    (localResult : Option CurveBuyMathResult) : Except JsError QuoteResult :=
  match client.simulated args with
  | .error error => .ok (.error .simulationReverted (describeError error))
  | .ok amountOut => report args recipientExempt snipeTaxBps localResult .simulation amountOut

def quoteBuy (args : QuoteBuyArgs) : Except JsError QuoteResult :=
  if args.quoteIn ≤ 0 then .ok (.error .zeroAmount "Enter an amount greater than zero.")
  else if args.state.graduated || args.state.readyToGraduate then .ok QuoteBuyArgs.graduatedError
  else
    match client.readSnipeTax args.state.curve args.recipient with
    | .error error => .ok (.error .rpcUnavailable (describeError error))
    | .ok (recipientExempt, snipeTaxBps) =>
      if args.mustSimulate recipientExempt then
        client.quoteSimulated args recipientExempt snipeTaxBps none
      else
        match computeCurveBuy (args.mathInput snipeTaxBps) with
        | .error (.snipeTaxNotModellable _ _ _) =>
          client.quoteSimulated args recipientExempt snipeTaxBps none
        | .error error => .ok (.error .insufficientLiquidity error.message)
        | .ok result =>
          -- a clamp changes what minTokensOut means
          if result.partialFill then
            client.quoteSimulated args recipientExempt snipeTaxBps (some result)
          else report args recipientExempt snipeTaxBps (some result) .localMath result.tokensOut

end QuoteClient

namespace QuoteBuyArgs

variable {args : QuoteBuyArgs} {exempt : Bool} {snipeTaxBps : Int} {fill : CurveBuyMathResult}

def localQuote (args : QuoteBuyArgs) (recipientExempt : Bool) (snipeTaxBps : Int)
    (fill : CurveBuyMathResult) (source : QuoteSource) : Except JsError QuoteResult :=
  if args.state.graduated || args.state.readyToGraduate then .ok graduatedError
  else QuoteClient.report args recipientExempt snipeTaxBps (some fill) source fill.tokensOut

/-- The buy is filled whole, at less than one basis point above the spot price. -/
def Small (input : CurveBuyMathInput) : Prop :=
  input.unclampedOut ≤ input.sellable ∧ (input.unclampedOut = 0 ∨
    (input.netOf input.quoteIn * input.tokenReserve - input.pricingQuoteReserve * input.unclampedOut)
      * basisPoints < input.pricingQuoteReserve * input.unclampedOut)

def localFields (args : QuoteBuyArgs) (recipientExempt : Bool) (snipeTaxBps : Int)
    (fill : CurveBuyMathResult) (source : QuoteSource) (minAmountOut : Int) : Quote where
  source
  amountIn := args.quoteIn
  amountOut := fill.tokensOut
  minAmountOut
  feeAmount := fill.feeAmount
  creatorTaxAmount := fill.creatorTaxAmount
  snipeTaxAmount := fill.snipeTaxAmount
  snipeTaxBps
  recipientExempt
  priceImpactBps :=
    computePriceImpactBps fill.net args.state.pricingQuoteReserve args.state.tokenReserve
  partialFill := fill.partialFill

def simulatedFields (args : QuoteBuyArgs) (recipientExempt : Bool) (snipeTaxBps : Int)
    (amountOut minAmountOut : Int) : Quote where
  source := .simulation
  amountIn := args.quoteIn
  amountOut
  minAmountOut
  feeAmount := share args.quoteIn args.state.feeBps
  creatorTaxAmount := share args.quoteIn args.state.creatorTaxBps
  snipeTaxAmount := share args.quoteIn snipeTaxBps
  snipeTaxBps
  recipientExempt
  priceImpactBps := 0
  partialFill := false

theorem report_some (hfill : computeCurveBuy (args.mathInput snipeTaxBps) = .ok fill)
    (source : QuoteSource) :
    QuoteClient.report args exempt snipeTaxBps (some fill) source fill.tokensOut =
      (applySlippageFloor fill.tokensOut args.slippageBps >>= fun minAmountOut =>
        .ok (.quote (args.localFields exempt snipeTaxBps fill source minAmountOut))) := by
  have hnet : 0 < fill.net := (CurveBuyMathInput.fills_of_ok hfill).net_pos
  simp only [QuoteClient.report, localFields, if_pos hnet, Option.any_some]
  rfl

theorem report_none (hfill : computeCurveBuy (args.mathInput snipeTaxBps) = .ok fill)
    (amountOut : Int) :
    QuoteClient.report args exempt snipeTaxBps none .simulation amountOut =
      (applySlippageFloor amountOut args.slippageBps >>= fun minAmountOut =>
        .ok (.quote (args.simulatedFields exempt snipeTaxBps amountOut minAmountOut))) := by
  obtain ⟨hfee, htax, hsnipe⟩ := CurveBuyMathInput.nonNeg_of_ok hfill
  have hquote : 0 ≤ args.quoteIn := (CurveBuyMathInput.fillable_of_ok hfill).quoteIn.le
  simp only [mathInput] at hfee htax hsnipe
  simp only [QuoteClient.report, simulatedFields, applyBps_of_nonneg hquote hfee,
    applyBps_of_nonneg hquote htax, applyBps_of_nonneg hquote hsnipe, ok_bind, gt_iff_lt,
    lt_self_iff_false, if_false, Option.any_none]
  rfl

theorem simulatedFields_eq_iff (hfill : computeCurveBuy (args.mathInput snipeTaxBps) = .ok fill)
    (source : QuoteSource) (minAmountOut : Int) :
    args.simulatedFields exempt snipeTaxBps fill.tokensOut minAmountOut =
        args.localFields exempt snipeTaxBps fill source minAmountOut ↔
      source = .simulation ∧ Small (args.mathInput snipeTaxBps) := by
  have hn := CurveBuyMathInput.nonNeg_of_ok hfill
  have hf := CurveBuyMathInput.fillable_of_ok hfill
  rw [CurveBuyMathInput.computeCurveBuy_eq hn hf] at hfill
  obtain rfl := Except.ok.inj hfill
  by_cases hclamped :
      (args.mathInput snipeTaxBps).sellable < (args.mathInput snipeTaxBps).unclampedOut
  · rw [if_pos hclamped]
    refine iff_of_false (fun h => ?_) fun h => absurd h.2.1 (not_le.mpr hclamped)
    exact absurd (congrArg Quote.partialFill h) (by simp [simulatedFields, localFields,
      CurveBuyMathInput.filled])
  · rw [if_neg hclamped]
    have himpact := computePriceImpactBps_eq_zero_iff
      (CurveBuyMathInput.netOf_pos hf.tax hf.quoteIn) hf.quote hf.token
    constructor
    · intro h
      have hsource := congrArg Quote.source h
      have hzero := congrArg Quote.priceImpactBps h
      exact ⟨hsource.symm, not_lt.mp hclamped, himpact.mp hzero.symm⟩
    · rintro ⟨rfl, -, hsmall⟩
      have hzero := himpact.mpr hsmall
      rw [simulatedFields, localFields, Quote.mk.injEq]
      exact ⟨rfl, rfl, rfl, rfl, rfl, rfl, rfl, rfl, rfl, hzero.symm, rfl⟩

end QuoteBuyArgs

namespace QuoteClient

variable (client : QuoteClient) {args : QuoteBuyArgs} {exempt : Bool} {snipeTaxBps : Int}
  {fill : CurveBuyMathResult}

/-- Whichever path a quote takes, it says what the local math says, exactly if it is not simulated
for the sake of the window or the buy is small. -/
theorem quoteBuy_same_iff (args : QuoteBuyArgs)
    (hread : client.readSnipeTax args.state.curve args.recipient = .ok (exempt, snipeTaxBps))
    (hfill : computeCurveBuy (args.mathInput snipeTaxBps) = .ok fill)
    (hsimulated : client.simulated args = .ok fill.tokensOut) :
    (∃ source, client.quoteBuy args = args.localQuote exempt snipeTaxBps fill source) ↔
      args.state.graduated = true ∨ args.state.readyToGraduate = true ∨
        (∀ bps, args.slippageBps.integer = some bps → bps < 0 ∨ 10000 < bps) ∨
        args.mustSimulate exempt = false ∨ QuoteBuyArgs.Small (args.mathInput snipeTaxBps) := by
  have hquote : ¬args.quoteIn ≤ 0 :=
    not_le.mpr (CurveBuyMathInput.fillable_of_ok hfill).quoteIn
  by_cases hgraduated : (args.state.graduated || args.state.readyToGraduate) = true
  · simp only [quoteBuy, QuoteBuyArgs.localQuote, if_neg hquote, if_pos hgraduated]
    have hor := (Bool.or_eq_true ..).mp hgraduated
    exact iff_of_true ⟨.localMath, trivial⟩ (hor.elim .inl fun hready => .inr (.inl hready))
  have hopen : ¬args.state.graduated = true ∧ ¬args.state.readyToGraduate = true := by
    simpa using hgraduated
  simp only [quoteBuy, QuoteBuyArgs.localQuote, if_neg hquote, if_neg hgraduated, hread, hfill]
  rw [or_iff_right hopen.1, or_iff_right hopen.2]
  cases hmust : args.mustSimulate exempt with
  | false =>
    refine iff_of_true ?_ (.inr (.inl rfl))
    cases fill.partialFill with
    | false => exact ⟨.localMath, rfl⟩
    | true => exact ⟨.simulation, by simp [quoteSimulated, hsimulated]⟩
  | true =>
    simp only [if_true, quoteSimulated, hsimulated, QuoteBuyArgs.report_none hfill,
      QuoteBuyArgs.report_some hfill, Bool.true_eq_false, false_or]
    by_cases hslippage : ∀ bps, args.slippageBps.integer = some bps → bps < 0 ∨ 10000 < bps
    · rw [applySlippageFloor_of_notMem fill.tokensOut hslippage]
      exact iff_of_true ⟨.localMath, rfl⟩ (.inl hslippage)
    · obtain ⟨bps, hbps, hrange⟩ : ∃ bps, args.slippageBps.integer = some bps ∧
          ¬(bps < 0 ∨ 10000 < bps) := by
        simpa using hslippage
      have hout : 0 ≤ fill.tokensOut := (CurveBuyMathInput.fills_of_ok hfill).tokensOut_nonneg
      rw [applySlippageFloor_of_mem hbps hout (by omega) (by omega)]
      simp only [ok_bind, Except.ok.injEq, QuoteResult.quote.injEq]
      constructor
      · rintro ⟨source, h⟩
        exact .inr ((QuoteBuyArgs.simulatedFields_eq_iff hfill source _).mp h).2
      · intro h
        have hsmall := h.resolve_left fun hall => hrange (hall bps hbps)
        exact ⟨.simulation, (QuoteBuyArgs.simulatedFields_eq_iff hfill _ _).mpr ⟨rfl, hsmall⟩⟩

def sampleClient (amountOut : Int) : QuoteClient where
  readSnipeTax _ _ := .ok (false, 0)
  simulateBuy _ _ _ _ _ := .ok amountOut

def sampleArgs (quoteIn : Int) : QuoteBuyArgs where
  state := {
    curve := 6
    pairToken := 0
    pricingQuoteReserve := 1000000000000
    realQuoteReserve := 0
    tokenReserve := 1000000000000
    phantomQuote := 1000000000000
    reservedTokens := 200000000000
    graduationThreshold := 4000000000000
    feeBps := 100
    creatorTaxBps := 0
    graduated := false
    readyToGraduate := false
    launchedAt := 100
    snipeTaxStartBps := 9900
    snipeTaxSeconds := 3 }
  quoteIn
  slippageBps := .ofNat 100
  recipient := 9
  nowSeconds := 101

/-- A small buy is reported alike. -/
theorem quoteBuy_same_iff_small :
    ∃ source, (sampleClient 989999).quoteBuy (sampleArgs 1000000) =
      (sampleArgs 1000000).localQuote false 0
        { tokensOut := 989999, spent := 1000000, refund := 0, feeAmount := 10000,
          creatorTaxAmount := 0, snipeTaxAmount := 0, partialFill := false } source :=
  ((sampleClient 989999).quoteBuy_same_iff (sampleArgs 1000000) rfl (by decide) rfl).mpr
    (.inr (.inr (.inr (.inr ⟨by decide, .inr (by decide)⟩))))

def clampedFill : CurveBuyMathResult where
  tokensOut := 800000000000
  spent := 4040404040406
  refund := 5959595959594
  feeAmount := 40404040404
  creatorTaxAmount := 0
  snipeTaxAmount := 0
  partialFill := true

/-- In the window neither its price impact nor that it is filled in part is reported. -/
theorem window_hides_impact :
    computeCurveBuy ((sampleArgs 10000000000000).mathInput 0) = .ok clampedFill ∧
      (sampleClient clampedFill.tokensOut).simulated (sampleArgs 10000000000000) =
        .ok clampedFill.tokensOut ∧
      ∀ source, (sampleClient clampedFill.tokensOut).quoteBuy (sampleArgs 10000000000000) ≠
        (sampleArgs 10000000000000).localQuote false 0 clampedFill source := by
  refine ⟨by decide, rfl, fun source => ?_⟩
  cases source <;> decide

end QuoteClient

structure QuoteSellArgs where
  state : CurveState
  tokensIn : Int
  slippageBps : JsNumber

/-- A sell is never simulated, and pays no anti-snipe tax. -/
def quoteSell (args : QuoteSellArgs) : Except JsError QuoteResult :=
  if args.tokensIn ≤ 0 then .ok (.error .zeroAmount "Enter an amount greater than zero.")
  else if args.state.graduated || args.state.readyToGraduate then
    .ok (.error .curveGraduated
      "This curve has finished. Selling has moved to its Uniswap V4 pool.")
  else
    match computeCurveSell { args.state with tokensIn := args.tokensIn } with
    | .error error => .ok (.error .insufficientLiquidity error.message)
    | .ok result => do
      let minAmountOut ← applySlippageFloor result.quoteOut args.slippageBps
      return .quote {
        source := .localMath
        amountIn := args.tokensIn
        amountOut := result.quoteOut
        minAmountOut
        feeAmount := result.feeAmount
        creatorTaxAmount := result.creatorTaxAmount
        snipeTaxAmount := 0
        snipeTaxBps := 0
        recipientExempt := false
        priceImpactBps := computePriceImpactBps args.tokensIn args.state.tokenReserve
          args.state.pricingQuoteReserve
        partialFill := false }

/-- What a curve can answer: words of 256 bits, and at most everything in fees. -/
structure CurveState.Plausible (state : CurveState) : Prop where
  feeBps : 0 ≤ state.feeBps
  creatorTaxBps : 0 ≤ state.creatorTaxBps
  taxes : state.feeBps + state.creatorTaxBps ≤ 10000
  quoteReserve : state.pricingQuoteReserve < 2 ^ 256
  tokenReserve : state.tokenReserve < 2 ^ 256
  reservedTokens : 0 ≤ state.reservedTokens

def QuoteResult.Sound (state : CurveState) (result : QuoteResult) : Prop :=
  ∀ quote, result = .quote quote → state.graduated = false ∧ state.readyToGraduate = false ∧
    0 ≤ quote.amountOut ∧ quote.amountOut < 2 ^ 256

namespace CurveSellMathInput

variable {input : CurveSellMathInput}

theorem computeCurveSell_quoteOut {r : CurveSellMathResult} (h : computeCurveSell input = .ok r) :
    0 ≤ r.grossQuoteOut ∧ 0 ≤ input.feeBps ∧ 0 ≤ input.creatorTaxBps ∧
      r.quoteOut = r.grossQuoteOut - share r.grossQuoteOut input.feeBps -
        share r.grossQuoteOut input.creatorTaxBps := by
  unfold computeCurveSell at h
  split at h
  · cases h
  obtain ⟨gross, -, h⟩ := bind_eq_ok.mp h
  obtain ⟨fee, hfee, h⟩ := bind_eq_ok.mp h
  obtain ⟨tax, htax, h⟩ := bind_eq_ok.mp h
  obtain ⟨hgross, hfeeBps⟩ := applyBps_ok hfee
  obtain ⟨-, htaxBps⟩ := applyBps_ok htax
  rw [applyBps_of_nonneg hgross hfeeBps] at hfee
  rw [applyBps_of_nonneg hgross htaxBps] at htax
  obtain rfl := Except.ok.inj hfee
  obtain rfl := Except.ok.inj htax
  obtain rfl := Except.ok.inj h
  exact ⟨hgross, hfeeBps, htaxBps, rfl⟩

theorem quoteOut_mem (htaxes : input.feeBps + input.creatorTaxBps ≤ basisPoints)
    {r : CurveSellMathResult} (h : computeCurveSell input = .ok r) :
    0 ≤ r.quoteOut ∧ r.quoteOut < input.pricingQuoteReserve := by
  obtain ⟨hin, htoken, hquote, hout⟩ := computeCurveSell_ok h
  obtain ⟨hgross, hfee, htax, heq⟩ := computeCurveSell_quoteOut h
  have hlt : r.grossQuoteOut < input.pricingQuoteReserve :=
    hout ▸ ConstantProduct.out_lt hin.le htoken hquote
  have hfees : (share r.grossQuoteOut input.feeBps + share r.grossQuoteOut input.creatorTaxBps) *
      basisPoints ≤ r.grossQuoteOut * basisPoints := by
    have hfeeShare := share_mul_le r.grossQuoteOut input.feeBps
    have htaxShare := share_mul_le r.grossQuoteOut input.creatorTaxBps
    have hall := mul_le_mul_of_nonneg_left htaxes hgross
    rw [mul_add] at hall
    rw [add_mul]
    exact (add_le_add hfeeShare htaxShare).trans hall
  have hleft := le_of_mul_le_mul_right hfees (by decide)
  have hfeeNonneg := share_nonneg hgross hfee
  have htaxNonneg := share_nonneg hgross htax
  rw [heq]
  omega

end CurveSellMathInput

theorem returns_error {post : Quote → Prop} (code : QuoteErrorCode) (message : String) :
    Returns (fun result : QuoteResult => ∀ quote, result = .quote quote → post quote)
      (.ok (.error code message)) :=
  .ok fun _ h => by cases h

theorem quoteSell_returns {args : QuoteSellArgs} {bps : Int} (hstate : args.state.Plausible)
    (hslippage : args.slippageBps.integer = some bps) (hlo : 0 ≤ bps) (hhi : bps ≤ 10000) :
    Returns (QuoteResult.Sound args.state) (quoteSell args) := by
  unfold quoteSell
  split
  · exact returns_error _ _
  split
  · exact returns_error _ _
  rename_i hopen
  obtain ⟨hgraduated, hready⟩ := Bool.or_eq_false_iff.mp (Bool.not_eq_true _ ▸ hopen)
  split
  · exact returns_error _ _
  rename_i result hsell
  obtain ⟨hnonneg, hlt⟩ := CurveSellMathInput.quoteOut_mem hstate.taxes hsell
  rw [applySlippageFloor_of_mem hslippage hnonneg hlo hhi]
  refine .ok fun quote hquote => ?_
  obtain rfl := QuoteResult.quote.inj hquote
  exact ⟨hgraduated, hready, hnonneg, hlt.trans hstate.quoteReserve⟩

namespace QuoteClient

variable {client : QuoteClient} {args : QuoteBuyArgs} {exempt : Bool} {snipeTaxBps bps : Int}

structure Decodes (client : QuoteClient) : Prop where
  snipeTax : ∀ curve recipient exempt snipeTaxBps,
    client.readSnipeTax curve recipient = .ok (exempt, snipeTaxBps) → 0 ≤ snipeTaxBps
  amountOut : ∀ curve quoteIn recipient value account amountOut,
    client.simulateBuy curve quoteIn recipient value account = .ok amountOut →
      0 ≤ amountOut ∧ amountOut < 2 ^ 256

theorem report_returns (hquoteIn : 0 ≤ args.quoteIn) (hstate : args.state.Plausible)
    (hsnipe : 0 ≤ snipeTaxBps) (hslippage : args.slippageBps.integer = some bps) (hlo : 0 ≤ bps)
    (hhi : bps ≤ 10000) (fill : Option CurveBuyMathResult) (source : QuoteSource)
    {amountOut : Int} (hout : 0 ≤ amountOut) :
    Returns (fun result => ∀ quote, result = .quote quote → quote.amountOut = amountOut)
      (report args exempt snipeTaxBps fill source amountOut) := by
  have hfloor := applySlippageFloor_of_mem hslippage hout hlo hhi
  cases fill with
  | some fill =>
    simp only [report, hfloor]
    refine .ok fun quote hquote => ?_
    obtain rfl := QuoteResult.quote.inj hquote
    rfl
  | none =>
    simp only [report, hfloor, applyBps_of_nonneg hquoteIn hstate.feeBps,
      applyBps_of_nonneg hquoteIn hstate.creatorTaxBps, applyBps_of_nonneg hquoteIn hsnipe]
    refine .ok fun quote hquote => ?_
    obtain rfl := QuoteResult.quote.inj hquote
    rfl

section buy

variable (hclient : client.Decodes) (hstate : args.state.Plausible) (hquoteIn : 0 ≤ args.quoteIn)
  (hslippage : args.slippageBps.integer = some bps) (hlo : 0 ≤ bps) (hhi : bps ≤ 10000)
include hclient hstate hquoteIn hslippage hlo hhi

theorem quoteSimulated_returns (hsnipe : 0 ≤ snipeTaxBps) (fill : Option CurveBuyMathResult) :
    Returns (fun result => ∀ quote, result = .quote quote →
        0 ≤ quote.amountOut ∧ quote.amountOut < 2 ^ 256)
      (client.quoteSimulated args exempt snipeTaxBps fill) := by
  unfold quoteSimulated
  split
  · exact returns_error _ _
  · rename_i amountOut hsimulated
    obtain ⟨hnonneg, hlt⟩ := hclient.amountOut _ _ _ _ _ _ hsimulated
    refine (report_returns hquoteIn hstate hsnipe hslippage hlo hhi fill .simulation hnonneg).imp
      fun result hresult quote hquote => ?_
    rw [hresult quote hquote]
    exact ⟨hnonneg, hlt⟩

theorem quoteBuy_returns : Returns (QuoteResult.Sound args.state) (client.quoteBuy args) := by
  unfold quoteBuy
  split
  · exact returns_error _ _
  split
  · exact returns_error _ _
  rename_i hopen
  obtain ⟨hgraduated, hready⟩ := Bool.or_eq_false_iff.mp (Bool.not_eq_true _ ▸ hopen)
  split
  · exact returns_error _ _
  rename_i exempt snipeTaxBps hread
  have hsnipe := hclient.snipeTax _ _ _ _ hread
  have hsimulated : ∀ fill, Returns (QuoteResult.Sound args.state)
      (client.quoteSimulated args exempt snipeTaxBps fill) := fun fill =>
    (quoteSimulated_returns hclient hstate hquoteIn hslippage hlo hhi hsnipe fill).imp
      fun _ h quote hquote => ⟨hgraduated, hready, h quote hquote⟩
  split
  · exact hsimulated none
  split
  · exact hsimulated none
  · exact returns_error _ _
  rename_i fill hfill
  split
  · exact hsimulated (some fill)
  · have hnonneg := (CurveBuyMathInput.fills_of_ok hfill).tokensOut_nonneg
    have hle : fill.tokensOut ≤ args.state.tokenReserve - args.state.reservedTokens :=
      (CurveBuyMathInput.fills_of_ok hfill).tokensOut_le
    have hlt := hstate.tokenReserve
    have hreserved := hstate.reservedTokens
    refine (report_returns hquoteIn hstate hsnipe hslippage hlo hhi (some fill) .localMath
      hnonneg).imp fun result hresult quote hquote => ⟨hgraduated, hready, ?_⟩
    rw [hresult quote hquote]
    omega

end buy

end QuoteClient

end Stunks.Pons
