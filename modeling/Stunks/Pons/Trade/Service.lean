import Stunks.Pons.Curve.Quote
import Stunks.Pons.Graduation.Venue
import Stunks.Pons.Launch.Calldata

/-! `trade/service.ts`: a trade is prepared, or refused. -/

namespace Stunks.Pons

open Utils

inductive TradeSide
  | buy
  | sell
  deriving DecidableEq

inductive TradeRefusal
  | notAPonsLaunch
  | noVenue
  | unsupportedVenue
  | quoteFailed
  | zeroAmount
  | slippageOutOfRange
  | insufficientBalance
  | rpcUnavailable
  deriving DecidableEq

structure Approval where
  token : Indexer.Address
  spender : Indexer.Address
  amount : Int
  data : List Char
  deriving DecidableEq

structure PreparedTrade where
  side : TradeSide
  to_ : Indexer.Address
  data : List Char
  value : Int
  quote : Quote
  approval : Option Approval
  warnings : List String
  deriving DecidableEq

inductive PrepareTradeResult
  | trade (trade : PreparedTrade)
  | refusal (code : TradeRefusal) (message : String)
  deriving DecidableEq

structure CurveViews where
  pairToken : BitVec 160
  reserves : BitVec 256 × BitVec 256
  realQuoteReserve : BitVec 256
  phantomQuote : BitVec 256
  reservedTokens : BitVec 256
  graduationThreshold : BitVec 256
  feeBps : BitVec 256
  creatorTaxBps : BitVec 256
  graduated : Bool
  readyToGraduate : Bool
  launchedAt : BitVec 256
  snipeTaxStartBps : BitVec 256
  snipeTaxSeconds : BitVec 256

structure PonsAddresses where
  memeHook : BitVec 160
  poolManager : BitVec 160

structure TradeClient where
  getLaunchedToken : (factory token : Indexer.Address) →
    Except ClientError (CurveLaunch (BitVec 8))
  curveViews : (curve : Indexer.Address) → Except ClientError CurveViews
  resolvePonsAddresses : (factory : Indexer.Address) → Except ClientError PonsAddresses
  getBlock : Except ClientError (BitVec 256)
  readSnipeTax : (curve recipient : Indexer.Address) → Except ClientError (Bool × BitVec 256)
  simulateBuy : (curve : Indexer.Address) → (quoteIn : Int) → (recipient : Indexer.Address) →
    (value : Int) → (account : Indexer.Address) → Except ClientError (BitVec 256)
  /-- In milliseconds. -/
  dateNow : Nat

namespace TradeClient

variable (client : TradeClient)

def quotes : QuoteClient where
  readSnipeTax curve recipient :=
    (client.readSnipeTax curve recipient).map fun (exempt, snipeTaxBps) =>
      (exempt, (snipeTaxBps.toNat : Int))
  simulateBuy curve quoteIn recipient value account :=
    (client.simulateBuy curve quoteIn recipient value account).map fun amountOut =>
      (amountOut.toNat : Int)

def readLaunchedToken (factory token : Indexer.Address) :
    Except ClientError (CurveLaunch GraduationPhase) :=
  match client.getLaunchedToken factory token with
  | .error error => .error error
  | .ok raw =>
    match parseGraduationPhase raw.phase.toNat with
    | none => .error { message :=
        s!"Unknown GraduationPhase value {raw.phase.toNat}. The Pons protocol may have been " ++
          "upgraded; re-verify before trading." }
    | some phase => .ok { raw with phase }

def readCurveState (curve : Indexer.Address) : Except ClientError CurveState :=
  (client.curveViews curve).map fun views => {
    curve
    pairToken := views.pairToken.toNat
    pricingQuoteReserve := views.reserves.1.toNat
    realQuoteReserve := views.realQuoteReserve.toNat
    tokenReserve := views.reserves.2.toNat
    phantomQuote := views.phantomQuote.toNat
    reservedTokens := views.reservedTokens.toNat
    graduationThreshold := views.graduationThreshold.toNat
    feeBps := views.feeBps.toNat
    creatorTaxBps := views.creatorTaxBps.toNat
    graduated := views.graduated
    readyToGraduate := views.readyToGraduate
    launchedAt := views.launchedAt.toNat
    snipeTaxStartBps := views.snipeTaxStartBps.toNat
    snipeTaxSeconds := views.snipeTaxSeconds.toNat }

end TradeClient

def encodeWord (size : Nat) (value : Int) : Except JsError Abi.Encoded :=
  if value < 0 ∨ 2 ^ size ≤ value then
    .error (.range s!"Number {value} is not in safe {size}-bit unsigned integer range")
  else .ok (Abi.uint value.toNat)

def calldataOf (selector : List UInt8) (words : List Abi.Encoded) : List Char :=
  ['0', 'x'] ++ hexOfBytes (selector ++ (Abi.tuple words).bytes)

/-- `buy(uint256,uint256,address)` and `sell(uint256,uint256,address)` -/
def TradeSide.selector : TradeSide → List UInt8
  | buy => [0x59, 0xa8, 0x7b, 0xc1]
  | sell => [0xd0, 0x4c, 0x69, 0x83]

def encodeTrade (side : TradeSide) (amountIn minOut : Int) (recipient : Indexer.Address) :
    Except JsError (List Char) := do
  let amountIn ← encodeWord 256 amountIn
  let minOut ← encodeWord 256 minOut
  let recipient ← encodeWord 160 recipient
  return calldataOf side.selector [amountIn, minOut, recipient]

def encodeApprove (spender : Indexer.Address) (amount : Int) : Except JsError (List Char) := do
  let spender ← encodeWord 160 spender
  let amount ← encodeWord 256 amount
  return calldataOf [0x09, 0x5e, 0xa7, 0xb3] [spender, amount]

structure PrepareTradeArgs where
  factory : Indexer.Address
  token : Indexer.Address
  side : TradeSide
  amountIn : Int
  slippageBps : JsNumber
  account : Indexer.Address
  recipient : Option Indexer.Address := none

def minSlippageBps : Int := 10
def maxSlippageBps : Int := 5000
def highSlippageBps : Int := 1000
def highImpactBps : Int := 500

def formatBps (bps : Int) : String :=
  let whole := bps.tdiv 100
  let fraction := bps.tmod 100
  let padding := if fraction < 10 then "0" else ""
  if fraction = 0 then s!"{whole}%" else s!"{whole}.{padding}{fraction}%"

namespace PrepareTradeArgs

variable (args : PrepareTradeArgs)

def receiver : Indexer.Address := args.recipient.getD args.account

def slippage : Option Int :=
  args.slippageBps.integer.filter fun bps => minSlippageBps ≤ bps && bps ≤ maxSlippageBps

def venue (client : TradeClient) (launch : CurveLaunch GraduationPhase) : Option TradingVenue :=
  if launch.phase = .poolCreated then
    match client.resolvePonsAddresses args.factory with
    | .error _ => none
    | .ok addresses => some (resolveTradingVenue {
        launch
        poolManager := addresses.poolManager.toNat
        memeHook := addresses.memeHook.toNat
        poolCurrencies := some (orderPoolCurrencies args.token launch.pairToken.toNat) })
  else
    some (resolveTradingVenue {
      launch, poolManager := launch.curve.toNat, memeHook := launch.curve.toNat })

def quoted (client : TradeClient) (state : CurveState) : Except JsError QuoteResult :=
  let nowSeconds : Int := match client.getBlock with
    | .ok timestamp => timestamp.toNat
    | .error _ => client.dateNow / 1000
  match args.side with
  | .buy => client.quotes.quoteBuy {
      state
      quoteIn := args.amountIn
      slippageBps := args.slippageBps
      recipient := args.receiver
      nowSeconds
      payer := some args.account }
  | .sell => quoteSell { state, tokensIn := args.amountIn, slippageBps := args.slippageBps }

def warnings (quote : Quote) (slippageBps : Int) : List String :=
  (if quote.priceImpactBps > highImpactBps then
    [s!"Price impact is about {formatBps quote.priceImpactBps}. Your trade is large " ++
      "relative to this curve's liquidity."] else []) ++
  (if slippageBps > highSlippageBps then
    [s!"Slippage tolerance of {formatBps slippageBps} is high. You could receive noticeably " ++
      "less than quoted."] else []) ++
  (if quote.snipeTaxBps > 0 then
    ["This launch is still inside its anti-snipe window and an extra " ++
      s!"{formatBps quote.snipeTaxBps} tax applies to this recipient. Waiting a few " ++
      "seconds costs far less."] else []) ++
  if quote.partialFill then
    ["This buy would exhaust the curve's remaining allocation, so it will be filled only " ++
      "in part and the difference refunded. You will receive up to the quoted amount."] else []

def build (curve : Indexer.Address) (state : CurveState) (slippageBps : Int) (quote : Quote) :
    Except JsError PreparedTrade := do
  let minOut ← applySlippageFloor quote.amountOut args.slippageBps
  let native := isNativeQuote state.pairToken
  let warnings := warnings quote slippageBps
  match args.side with
  | .buy =>
    let data ← encodeTrade .buy args.amountIn minOut args.receiver
    let approval ←
      if native then pure none
      else do
        let data ← encodeApprove curve args.amountIn
        pure (some { token := state.pairToken, spender := curve, amount := args.amountIn, data })
    return {
      side := .buy
      to_ := curve
      data
      value := if native then args.amountIn else 0
      quote
      approval
      warnings }
  | .sell =>
    let data ← encodeTrade .sell args.amountIn minOut args.receiver
    let approve ← encodeApprove curve args.amountIn
    return {
      side := .sell
      to_ := curve
      data
      value := 0
      quote
      approval := some {
        token := args.token, spender := curve, amount := args.amountIn, data := approve }
      warnings }

end PrepareTradeArgs

def unreadMessage (error : ClientError) : String :=
  "Could not read the token's current state, so no trade was prepared: " ++ error.message

def prepareTrade (client : TradeClient) (args : PrepareTradeArgs) :
    Except JsError PrepareTradeResult :=
  if args.amountIn ≤ 0 then
    .ok (.refusal .zeroAmount "Enter an amount greater than zero.")
  else
    match args.slippage with
    | none => .ok (.refusal .slippageOutOfRange "Slippage must be between 0.1% and 50%.")
    | some slippageBps =>
      match client.readLaunchedToken args.factory args.token with
      | .error error => .ok (.refusal .rpcUnavailable (unreadMessage error))
      | .ok launch =>
        if launch.exists_ = false then
          .ok (.refusal .notAPonsLaunch ("This address is not registered with the Pons V2 " ++
            "factory, so STUNKS will not trade it."))
        else
          match client.readCurveState launch.curve.toNat with
          | .error error => .ok (.refusal .rpcUnavailable (unreadMessage error))
          | .ok state =>
            match args.venue client launch with
            | none => .ok (.refusal .rpcUnavailable
                "Could not resolve the Pons contract graph, so no venue was determined.")
            | some (.none reason) => .ok (.refusal
                (if reason = .notAPonsLaunch then .notAPonsLaunch else .noVenue)
                (describeNoVenue reason))
            -- refused rather than approximated
            | some (.uniswapV4 ..) => .ok (.refusal .unsupportedVenue
                ("This token has graduated to a Uniswap V4 pool. STUNKS does not route V4 swaps " ++
                  "yet — the quoting path is unverified, and guessing it would misprice your " ++
                  "trade. You can trade it on a Uniswap V4 interface."))
            | some (.curve _ _) => do
              match ← args.quoted client state with
              | .error _ message => return .refusal .quoteFailed message
              | .quote quote =>
                return .trade (← args.build launch.curve.toNat state slippageBps quote)

def PrepareTradeArgs.attaches (args : PrepareTradeArgs) (state : CurveState) : Bool :=
  args.side = .buy && isNativeQuote state.pairToken

structure Built (args : PrepareTradeArgs) (trade : PreparedTrade) (curve : Indexer.Address)
    (state : CurveState) (slippageBps : Int) : Prop where
  side : trade.side = args.side
  to_ : trade.to_ = curve
  data : ∃ minOut : Nat, minOut < 2 ^ 256 ∧
    (minOut : Int) = trade.quote.amountOut - trade.quote.amountOut * slippageBps / 10000 ∧
    trade.data = ['0', 'x'] ++ hexOfBytes (args.side.selector ++
      [args.amountIn.toNat, minOut, args.receiver].flatMap Abi.word)
  value : trade.value = if args.attaches state then args.amountIn else 0
  approval : trade.approval =
    if args.attaches state then none
    else some {
      token := if args.side = .sell then args.token else state.pairToken
      spender := curve
      amount := args.amountIn
      data := ['0', 'x'] ++ hexOfBytes ([0x09, 0x5e, 0xa7, 0xb3] ++
        [curve, args.amountIn.toNat].flatMap Abi.word) }

structure Safe (client : TradeClient) (args : PrepareTradeArgs) (trade : PreparedTrade)
    (launch : CurveLaunch GraduationPhase) (state : CurveState) (slippageBps : Int) : Prop
    extends Built args trade launch.curve.toNat state slippageBps where
  readLaunch : client.readLaunchedToken args.factory args.token = .ok launch
  exists_ : launch.exists_ = true
  phase : launch.phase = .notGraduated
  readState : client.readCurveState launch.curve.toNat = .ok state
  graduated : state.graduated = false
  readyToGraduate : state.readyToGraduate = false
  amountIn : 0 < args.amountIn
  slippage : args.slippageBps.integer = some slippageBps
  slippage_mem : 10 ≤ slippageBps ∧ slippageBps ≤ 5000

theorem encodeWord_of_lt {size : Nat} {value : Int} (hlo : 0 ≤ value) (hhi : value < 2 ^ size) :
    encodeWord size value = .ok (Abi.uint value.toNat) := by
  rw [encodeWord, if_neg (by omega)]

theorem calldataOf_uints (selector : List UInt8) (numbers : List Nat) :
    calldataOf selector (numbers.map Abi.uint) =
      ['0', 'x'] ++ hexOfBytes (selector ++ numbers.flatMap Abi.word) := by
  rw [calldataOf, Abi.tuple_uints]

section safe

variable {client : TradeClient} {args : PrepareTradeArgs}

theorem plausible_of_read {curve : Indexer.Address} {state : CurveState}
    (hread : client.readCurveState curve = .ok state)
    (htaxes : ∀ views, client.curveViews curve = .ok views →
      views.feeBps.toNat + views.creatorTaxBps.toNat ≤ 10000) : state.Plausible := by
  obtain ⟨views, hviews, rfl⟩ := map_eq_ok.mp hread
  have hle := htaxes views hviews
  have hquote := views.reserves.1.isLt
  have htoken := views.reserves.2.isLt
  constructor <;> dsimp only <;> omega

theorem quotes_decodes (client : TradeClient) : client.quotes.Decodes where
  snipeTax curve recipient exempt snipeTaxBps h := by
    obtain ⟨answer, -, heq⟩ := map_eq_ok.mp h
    obtain ⟨-, rfl⟩ := Prod.mk.inj heq
    exact Int.natCast_nonneg _
  amountOut curve quoteIn recipient value account amountOut h := by
    obtain ⟨answer, -, rfl⟩ := map_eq_ok.mp h
    have hlt := answer.isLt
    change 0 ≤ (answer.toNat : Int) ∧ (answer.toNat : Int) < 2 ^ 256
    omega

theorem quoted_returns (client : TradeClient) {state : CurveState} {bps : Int}
    (hstate : state.Plausible) (hamount : 0 < args.amountIn)
    (hslippage : args.slippageBps.integer = some bps) (hlo : 10 ≤ bps) (hhi : bps ≤ 5000) :
    Returns (QuoteResult.Sound state) (args.quoted client state) := by
  unfold PrepareTradeArgs.quoted
  cases args.side with
  | buy =>
    exact QuoteClient.quoteBuy_returns (quotes_decodes client) hstate hamount.le hslippage
      (by omega) (by omega)
  | sell => exact quoteSell_returns hstate hslippage (by omega) (by omega)

theorem build_returns {curve : Indexer.Address} {state : CurveState} {bps : Int} {quote : Quote}
    (hamount : 0 < args.amountIn) (hword : args.amountIn < 2 ^ 256)
    (hreceiver : args.receiver < 2 ^ 160) (hcurve : curve < 2 ^ 160)
    (hslippage : args.slippageBps.integer = some bps) (hlo : 10 ≤ bps) (hhi : bps ≤ 5000)
    (hnonneg : 0 ≤ quote.amountOut) (hout : quote.amountOut < 2 ^ 256) :
    Returns (fun trade => Built args trade curve state bps) (args.build curve state bps quote) := by
  have hfloor := applySlippageFloor_of_mem hslippage hnonneg (show 0 ≤ bps by omega) (by omega)
  have hle : quote.amountOut - share quote.amountOut bps ≤ quote.amountOut :=
    applySlippageFloor_le hfloor
  have hshare : share quote.amountOut bps ≤ quote.amountOut :=
    share_le hnonneg (by unfold basisPoints; omega)
  obtain ⟨minOut, hminOut⟩ := Int.eq_ofNat_of_zero_le (show 0 ≤ quote.amountOut -
    share quote.amountOut bps by omega)
  have htrade : ∀ side, encodeTrade side args.amountIn minOut args.receiver =
      .ok (['0', 'x'] ++ hexOfBytes (side.selector ++
        [args.amountIn.toNat, minOut, args.receiver].flatMap Abi.word)) := by
    intro side
    rw [encodeTrade, encodeWord_of_lt hamount.le hword, encodeWord_of_lt (by omega) (by omega),
      encodeWord_of_lt (Int.natCast_nonneg _) (by exact_mod_cast hreceiver)]
    exact congrArg _ (calldataOf_uints side.selector [args.amountIn.toNat, minOut, args.receiver])
  have happrove : encodeApprove curve args.amountIn =
      .ok (['0', 'x'] ++ hexOfBytes ([0x09, 0x5e, 0xa7, 0xb3] ++
        [curve, args.amountIn.toNat].flatMap Abi.word)) := by
    rw [encodeApprove, encodeWord_of_lt (Int.natCast_nonneg _) (by exact_mod_cast hcurve),
      encodeWord_of_lt hamount.le hword]
    exact congrArg _ (calldataOf_uints _ [curve, args.amountIn.toNat])
  have hword' : (minOut : Int) < 2 ^ 256 := by omega
  simp only [PrepareTradeArgs.build, hfloor, hminOut, htrade, happrove, ok_bind]
  have hbound : (minOut : Int) = quote.amountOut - quote.amountOut * bps / 10000 := hminOut.symm
  have hlt : minOut < 2 ^ 256 := by exact_mod_cast hword'
  cases hside : args.side with
  | buy =>
    cases hnative : isNativeQuote state.pairToken with
    | true =>
      have hattaches : args.attaches state = true := by
        simp [PrepareTradeArgs.attaches, hside, hnative]
      exact .ok ⟨hside.symm, rfl, ⟨minOut, hlt, hbound, hside ▸ rfl⟩,
        (if_pos hattaches).symm, (if_pos hattaches).symm⟩
    | false =>
      have hattaches : ¬args.attaches state = true := by
        simp [PrepareTradeArgs.attaches, hside, hnative]
      refine .ok ⟨hside.symm, rfl, ⟨minOut, hlt, hbound, hside ▸ rfl⟩,
        (if_neg hattaches).symm, ?_⟩
      rw [if_neg hattaches, hside]
      rfl
  | sell =>
    have hattaches : ¬args.attaches state = true := by
      simp [PrepareTradeArgs.attaches, hside]
    refine .ok ⟨hside.symm, rfl, ⟨minOut, hlt, hbound, hside ▸ rfl⟩,
      (if_neg hattaches).symm, ?_⟩
    rw [if_neg hattaches, hside]
    rfl

theorem slippage_eq_some {bps : Int} (h : args.slippage = some bps) :
    args.slippageBps.integer = some bps ∧ 10 ≤ bps ∧ bps ≤ 5000 := by
  obtain ⟨hsome, hmem⟩ := Option.filter_eq_some_iff.mp h
  obtain ⟨hlo, hhi⟩ := (Bool.and_eq_true ..).mp hmem
  exact ⟨hsome, of_decide_eq_true hlo, of_decide_eq_true hhi⟩

theorem receiver_lt (haccount : args.account < 2 ^ 160)
    (hrecipient : ∀ r ∈ args.recipient, r < 2 ^ 160) : args.receiver < 2 ^ 160 := by
  unfold PrepareTradeArgs.receiver
  cases hcase : args.recipient with
  | none => exact haccount
  | some recipient => exact hrecipient recipient hcase

theorem venue_curve {launch : CurveLaunch GraduationPhase} {curve pairToken : Indexer.Address}
    (h : args.venue client launch = some (.curve curve pairToken)) :
    launch.exists_ = true ∧ launch.phase = .notGraduated := by
  unfold PrepareTradeArgs.venue at h
  split at h
  · split at h
    · cases h
    · exact resolveTradingVenue_curve (Option.some.inj h)
  · exact resolveTradingVenue_curve (Option.some.inj h)

theorem refused {post : PreparedTrade → Prop} (code : TradeRefusal) (message : String) :
    Returns (fun result : PrepareTradeResult => ∀ trade, result = .trade trade → post trade)
      (.ok (.refusal code message)) :=
  .ok fun _ h => by cases h

/-- A trade is refused or safe, whatever the chain answers and whichever reads fail. -/
theorem prepareTrade_safe (client : TradeClient) (args : PrepareTradeArgs)
    (haccount : args.account < 2 ^ 160) (hrecipient : ∀ r ∈ args.recipient, r < 2 ^ 160)
    (hamount : args.amountIn < 2 ^ 256)
    (htaxes : ∀ launch views, client.readLaunchedToken args.factory args.token = .ok launch →
      client.curveViews launch.curve.toNat = .ok views →
        views.feeBps.toNat + views.creatorTaxBps.toNat ≤ 10000) :
    ∃ result, prepareTrade client args = .ok result ∧ ∀ trade, result = .trade trade →
      ∃ launch state slippageBps, Safe client args trade launch state slippageBps := by
  change Returns _ _
  unfold prepareTrade
  split
  · exact refused _ _
  rename_i hpositive
  split
  · exact refused _ _
  rename_i bps hslippage
  split
  · exact refused _ _
  rename_i launch hlaunch
  split
  · exact refused _ _
  rename_i hexists
  split
  · exact refused _ _
  rename_i state hstate
  split
  · exact refused _ _
  · exact refused _ _
  · exact refused _ _
  rename_i curve pairToken hvenue
  have hamount' : 0 < args.amountIn := not_le.mp hpositive
  obtain ⟨hexists', hphase⟩ := venue_curve hvenue
  obtain ⟨hslippage', hlo, hhi⟩ := slippage_eq_some hslippage
  have hplausible := plausible_of_read hstate fun _ => htaxes _ _ hlaunch
  refine (quoted_returns client hplausible hamount' hslippage' hlo hhi).bind fun result hresult => ?_
  cases result with
  | error _ message => exact refused .quoteFailed message
  | quote quote =>
    obtain ⟨hgraduated, hready, hnonneg, hout⟩ := hresult quote rfl
    refine (build_returns hamount' hamount (receiver_lt haccount hrecipient) launch.curve.isLt
      hslippage' hlo hhi hnonneg hout).bind fun trade htrade => .ok fun trade' heq => ?_
    obtain rfl := PrepareTradeResult.trade.inj heq
    exact ⟨launch, state, bps, htrade, hlaunch, hexists', hphase, hstate, hgraduated, hready,
      hamount', hslippage', hlo, hhi⟩

end safe

def sampleTradeClient : TradeClient where
  getLaunchedToken _ _ := .ok {
    creatorFeeRecipient := 8, graduationThreshold := 4000000000000, poolFee := 0, tickSpacing := 200
    creatorTaxBps := 0, buybackEnabled := false, phase := 0, exists_ := true, curve := 6
    pairToken := 0 }
  curveViews _ := .ok {
    pairToken := 0, reserves := (1000000000000, 1000000000000), realQuoteReserve := 0
    phantomQuote := 1000000000000, reservedTokens := 200000000000
    graduationThreshold := 4000000000000, feeBps := 100, creatorTaxBps := 0, graduated := false
    readyToGraduate := false, launchedAt := 100, snipeTaxStartBps := 9900, snipeTaxSeconds := 3 }
  resolvePonsAddresses _ := .error { message := "timeout" }
  getBlock := .error { message := "timeout" }
  readSnipeTax _ _ := .ok (false, 0)
  simulateBuy _ _ _ _ _ := .error { message := "reverted" }
  dateNow := 1000000

def sampleTrade : PrepareTradeArgs where
  factory := 5
  token := 7
  side := .buy
  amountIn := 1000000
  slippageBps := .ofNat 100
  account := 9

theorem prepareTrade_safe_sample :
    ∃ trade, prepareTrade sampleTradeClient sampleTrade = .ok (.trade trade) ∧
      ∃ launch state slippageBps,
        Safe sampleTradeClient sampleTrade trade launch state slippageBps := by
  have hkind : (match prepareTrade sampleTradeClient sampleTrade with
      | .ok (.trade _) => true
      | _ => false) = true := by
    decide
  obtain ⟨result, hresult, hsafe⟩ := prepareTrade_safe sampleTradeClient sampleTrade
    (show 9 < 2 ^ 160 by decide) nofun (show (1000000 : Int) < 2 ^ 256 by decide)
    fun _ _ _ hviews => by
      obtain rfl := Except.ok.inj hviews
      decide
  cases result with
  | trade trade => exact ⟨trade, hresult, hsafe trade rfl⟩
  | refusal code message =>
    rw [hresult] at hkind
    cases hkind

end Stunks.Pons
