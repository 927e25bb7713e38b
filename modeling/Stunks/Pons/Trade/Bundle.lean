import Stunks.Pons.Curve.Run

/-! `trade/bundle.ts`: the whitelist bundle planner. -/

namespace Stunks.Pons

open Utils

abbrev AddressText := List Char

def toLowerCase (address : AddressText) : AddressText := address.map Char.toLower

structure BundleRecipient where
  address : AddressText
  amountIn : Int
  deriving DecidableEq

structure PlanBundleArgs where
  recipients : List BundleRecipient
  pricingQuoteReserve : Int
  tokenReserve : Int
  reservedTokens : Int
  feeBps : Int
  creatorTaxBps : Int
  slippageBps : JsNumber
  exemptAddresses : List AddressText

structure PlannedBuy where
  recipient : AddressText
  amountIn : Int
  expectedOut : Int
  minOut : Int
  order : Nat
  deriving DecidableEq

structure BundlePlan where
  buys : List PlannedBuy
  totalIn : Int
  totalExpectedOut : Int
  warnings : List String
  deriving DecidableEq

inductive BundleRefusal
  | noRecipients
  | tooManyRecipients
  | duplicateRecipient
  | notExempt
  | zeroAmount
  | exceedsCurveAllocation
  | notModellable
  deriving DecidableEq

inductive PlanBundleResult
  | ok (plan : BundlePlan)
  | refused (code : BundleRefusal) (message : String)
  deriving DecidableEq

abbrev Refusal := BundleRefusal × String

def maxBundleRecipients : Nat := 31

def checkRecipients : List AddressText → List BundleRecipient → Except Refusal Unit
  | _, [] => .ok ()
  | seen, recipient :: rest =>
    let key := toLowerCase recipient.address
    if key ∈ seen then
      .error (.duplicateRecipient,
        s!"{String.ofList recipient.address} appears more than once. Combine the amounts instead.")
    else if recipient.amountIn ≤ 0 then
      .error (.zeroAmount,
        s!"Set an amount greater than zero for {String.ofList recipient.address}.")
    else checkRecipients (key :: seen) rest

def checkExempt (exempt : List AddressText) : List BundleRecipient → Except Refusal Unit
  | [] => .ok ()
  | recipient :: rest =>
    if toLowerCase recipient.address ∉ exempt then
      .error (.notExempt,
        s!"{String.ofList recipient.address} is not in the launch's exemption list, so it would " ++
        "pay the anti-snipe tax — up to 99% of the buy. Add it to the whitelist at launch, or " ++
        "remove it from the bundle.")
    else checkExempt exempt rest

namespace PlanBundleArgs

def reserves (args : PlanBundleArgs) : Reserves := { args with }

/-- A buy of the bundle: every recipient is exempt, so it pays no snipe tax. -/
def buyInput (args : PlanBundleArgs) (reserves : Reserves) (amountIn : Int) : CurveBuyMathInput :=
  reserves.buyInput amountIn args.feeBps args.creatorTaxBps 0 args.reservedTokens

def buy (args : PlanBundleArgs) (reserves : Reserves) (amountIn : Int) :
    Except JsError CurveBuyMathResult :=
  computeCurveBuy (args.buyInput reserves amountIn)

def runBuys (args : PlanBundleArgs) : Reserves → List Int →
    Except JsError (List CurveBuyMathResult × Reserves)
  | reserves, [] => .ok ([], reserves)
  | reserves, amountIn :: rest => do
    let step ← args.buy reserves amountIn
    let (steps, last) ← args.runBuys (reserves.afterBuy step) rest
    return (step :: steps, last)

def expectedPass (args : PlanBundleArgs) :
    Nat → Reserves → List BundleRecipient → Except Refusal BundlePlan
  | _, _, [] => .ok { buys := [], totalIn := 0, totalExpectedOut := 0, warnings := [] }
  | index, reserves, recipient :: rest =>
    match args.buy reserves recipient.amountIn with
    | .error (.snipeTaxNotModellable _ _ _) =>
      .error (.notModellable,
        "This launch's fees cannot be modelled locally, so bundle amounts cannot be " ++
        "planned honestly. Reduce the creator tax or bundle after the window closes.")
    | .error _ =>
      .error (.exceedsCurveAllocation,
        s!"The bundle exhausts the curve's sellable allocation at wallet {index + 1} " ++
        s!"({String.ofList recipient.address}). Lower the amounts or use fewer wallets.")
    | .ok step => do
      let later ← args.expectedPass (index + 1) (reserves.afterBuy step) rest
      return {
        buys := {
          recipient := recipient.address
          amountIn := recipient.amountIn
          expectedOut := step.tokensOut
          minOut := 0
          order := index } :: later.buys
        totalIn := recipient.amountIn + later.totalIn
        totalExpectedOut := step.tokensOut + later.totalExpectedOut
        warnings := (if step.partialFill then
          [s!"Wallet {index + 1} ({String.ofList recipient.address}) would only be filled in " ++
            "part — the bundle reaches the curve's graduation point. The unspent remainder is " ++
            "refunded."] else []) ++ later.warnings }

def othersOf (args : PlanBundleArgs) (target : BundleRecipient) : List BundleRecipient :=
  args.recipients.filter fun other => toLowerCase other.address ≠ toLowerCase target.address

/-- What `target` receives after every other buy, in list order. -/
def worstCaseFloor (args : PlanBundleArgs) (target : BundleRecipient) : Except Refusal Int :=
  match args.runBuys args.reserves ((args.othersOf target).map (·.amountIn)) with
  | .error _ =>
    .error (.exceedsCurveAllocation,
      "In the worst ordering this bundle exhausts the curve, so a safe minimum " ++
      "cannot be set for every wallet. Lower the amounts or use fewer wallets.")
  | .ok (_, reserves) =>
    match args.buy reserves target.amountIn with
    | .error _ =>
      .error (.exceedsCurveAllocation,
        s!"{String.ofList target.address} cannot be filled if every other wallet buys first. " ++
        "Lower the amounts or use fewer wallets.")
    | .ok step => .ok step.tokensOut

def worstCaseFloors (args : PlanBundleArgs) : Except Refusal (List Int) :=
  args.recipients.mapM args.worstCaseFloor

def priced (args : PlanBundleArgs) : Except Refusal (BundlePlan × List Int) := do
  if args.recipients.length = 0 then
    .error (.noRecipients, "Add at least one wallet to bundle.")
  if args.recipients.length > maxBundleRecipients then
    .error (.tooManyRecipients,
      s!"A launch can exempt at most {maxBundleRecipients} addresses, so a bundle cannot " ++
      s!"exceed that either. You listed {args.recipients.length}.")
  checkRecipients [] args.recipients
  checkExempt (args.exemptAddresses.map toLowerCase) args.recipients
  let expected ← args.expectedPass 0 args.reserves args.recipients
  let floors ← args.worstCaseFloors
  return (expected, floors)

def withFloors (args : PlanBundleArgs) (floors : List Int) :
    Nat → List PlannedBuy → Except JsError (List PlannedBuy)
  | _, [] => .ok []
  | index, buy :: rest => do
    let minOut ← applySlippageFloor (floors.getD index 0) args.slippageBps
    return { buy with minOut } :: (← args.withFloors floors (index + 1) rest)

end PlanBundleArgs

def planBundle (args : PlanBundleArgs) : Except JsError PlanBundleResult :=
  match args.priced with
  | .error (code, message) => .ok (.refused code message)
  | .ok (expected, floors) => do
    let buys ← args.withFloors floors 0 expected.buys
    let late :=
      if args.recipients.length > 8 then
        [s!"{args.recipients.length} sequential transactions will not all confirm inside the " ++
          "anti-snipe window, which is only a few seconds long. Wallets later in the list may " ++
          "land after it closes. They still pay no tax — they are exempt — but they will buy " ++
          "at a price other traders have already moved."]
      else []
    return .ok { expected with buys, warnings := expected.warnings ++ late }

end Stunks.Pons
