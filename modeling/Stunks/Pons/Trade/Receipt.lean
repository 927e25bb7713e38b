import Stunks.Pons.Trade.Plan

/-! `events/index.ts` and the end of `trade/bundle.ts`: from the receipt of a launch to the
transactions of its bundle. -/

namespace Stunks.Pons

abbrev HexText := List Char

inductive PonsEventSource
  | FACTORY
  | CURVE
  | HOOK
  deriving DecidableEq

inductive CurveCall
  | buy (quoteIn minTokensOut : Int) (recipient : AddressText)
  deriving DecidableEq

structure Viem where
  toEventSelector : String → HexText
  /-- `none` is a payload that does not decode. -/
  decodeEventLog (source : PonsEventSource) (data : HexText) (topics : List HexText) :
    Option (String → Option AddressText)
  encodeFunctionData : CurveCall → Except JsError HexText

def PonsEventSource.abi : PonsEventSource → List (String × List String)
  | FACTORY => [
    ("TokenLaunched", ["address", "address", "address", "address", "uint256", "uint256"]),
    ("LaunchSwept", ["address", "uint256", "uint256"]),
    ("LaunchForceSwept", ["address"]),
    ("PoolGraduated", ["address", "uint256", "uint256", "uint256"]),
    ("GraduationTokensPermanentlyLocked", ["address", "uint256"]),
    ("LaunchConfigAdded", ["uint256"]),
    ("LaunchConfigUpdated", ["uint256"])]
  | CURVE => [
    ("CurveBuy", ["address", "address", "uint256", "uint256", "uint256", "uint256"]),
    ("CurveSell", ["address", "address", "uint256", "uint256", "uint256", "uint256"]),
    ("CurveBuyRefunded", ["address", "uint256"]),
    ("FeesSwept", ["uint256", "uint256", "uint256"]),
    ("BuybackLocked", ["uint256", "uint256"]),
    ("CurveCompleted", ["address", "uint256", "uint256"]),
    ("AutoGraduationFailed", ["address", "uint256"])]
  | HOOK => [
    ("PoolRegistered", ["bytes32", "address", "address", "address"]),
    ("HookFeeCollected", ["bytes32", "address", "uint256", "uint256"])]

def PonsEventSource.eventNames : PonsEventSource → List String
  | FACTORY => ["TokenLaunched", "LaunchSwept", "LaunchForceSwept", "PoolGraduated",
    "GraduationTokensPermanentlyLocked", "LaunchConfigAdded", "LaunchConfigUpdated"]
  | CURVE => ["CurveBuy", "CurveSell", "CurveBuyRefunded", "FeesSwept", "BuybackLocked",
    "CurveCompleted", "AutoGraduationFailed"]
  | HOOK => ["PoolRegistered", "HookFeeCollected"]

structure LogText where
  address : AddressText
  topics : List HexText
  data : HexText
  blockNumber : Option Nat
  transactionHash : Option HexText
  logIndex : Option Nat

structure DecodedPonsEvent where
  source : PonsEventSource
  name : String
  args : String → Option AddressText
  address : AddressText
  blockNumber : Nat
  transactionHash : HexText
  logIndex : Nat

structure ReceiptLog where
  address : AddressText
  topics : List HexText
  data : HexText
  deriving DecidableEq

structure Receipt where
  logs : List ReceiptLog
  transactionHash : HexText
  factory : AddressText
  curveHasCode : Bool

structure ConfirmedLaunch where
  curve : AddressText
  pairToken : AddressText
  launchTxHash : HexText
  curveHasCode : Bool
  deriving DecidableEq

structure BundleTransaction where
  toAddress : AddressText
  data : HexText
  value : Int
  recipient : AddressText
  order : Nat
  deriving DecidableEq

structure ExecutableBundle where
  curve : AddressText
  native : Bool
  transactions : List BundleTransaction
  deriving DecidableEq

variable (viem : Viem)

def buildTopicMap (abi : List (String × List String)) (names : List String) :
    List (HexText × String) :=
  (abi.filter fun entry => names.contains entry.1).map fun entry =>
    (viem.toEventSelector (entry.1 ++ "(" ++ ",".intercalate entry.2 ++ ")"), entry.1)

/-- `map[topic0]`, where a later entry replaces an earlier one. -/
def nameOf (map : List (HexText × String)) (topic0 : HexText) : Option String :=
  (map.reverse.find? fun entry => entry.1 = topic0).map Prod.snd

def decodePonsLog (log : LogText) : Option DecodedPonsEvent :=
  match log.topics, log.blockNumber, log.transactionHash, log.logIndex with
  | topic0 :: _, some blockNumber, some transactionHash, some logIndex =>
    if topic0 = [] then none
    else
      let named := [PonsEventSource.FACTORY, .CURVE, .HOOK].findSome? fun source =>
        (nameOf (buildTopicMap viem source.abi source.eventNames) topic0).map (source, ·)
      match named with
      | none => none
      | some (source, name) =>
        (viem.decodeEventLog source log.data log.topics).map fun args =>
          { source, name, args, address := log.address, blockNumber, transactionHash, logIndex }
  | _, _, _, _ => none

/-- Only the configured factory is trusted. -/
def ReceiptLog.emittedBy (factory : AddressText) (log : ReceiptLog) : Bool :=
  toLowerCase log.address = toLowerCase factory

def ReceiptLog.toLog (log : ReceiptLog) (transactionHash : HexText) : LogText :=
  { log with blockNumber := some 0, transactionHash := some transactionHash, logIndex := some 0 }

def Receipt.confirms (receipt : Receipt) (log : ReceiptLog) : Option ConfirmedLaunch :=
  if log.emittedBy receipt.factory = false then none
  else
    match decodePonsLog viem (log.toLog receipt.transactionHash) with
    | none => none
    | some decoded =>
      if decoded.name ≠ "TokenLaunched" then none
      else
        match decoded.args "curve", decoded.args "pairToken" with
        | some curve, some pairToken =>
          if curve = [] ∨ pairToken = [] then none
          else some { curve, pairToken, launchTxHash := receipt.transactionHash,
                      curveHasCode := receipt.curveHasCode }
        | _, _ => none

def confirmedLaunchFromReceipt (receipt : Receipt) : Option ConfirmedLaunch :=
  receipt.logs.findSome? (receipt.confirms viem)

def noCodeYet : JsError :=
  .error ("Refusing to build bundle transactions: the curve address has no code yet. " ++
    "A buy sent to a codeless address does not revert — the funds would be lost.")

/-- `/^0x0{40}$/i` -/
def isNativePair (pairToken : AddressText) : Bool :=
  toLowerCase pairToken = '0' :: 'x' :: List.replicate 40 '0'

def ConfirmedLaunch.transaction (launch : ConfirmedLaunch) (buy : PlannedBuy) :
    Except JsError BundleTransaction := do
  let data ← viem.encodeFunctionData (.buy buy.amountIn buy.minOut buy.recipient)
  return { toAddress := launch.curve
           data
           value := if isNativePair launch.pairToken then buy.amountIn else 0
           recipient := buy.recipient
           order := buy.order }

def buildBundleTransactions (plan : BundlePlan) (launch : ConfirmedLaunch) :
    Except JsError ExecutableBundle :=
  if launch.curveHasCode = false then .error noCodeYet
  else do
    let transactions ← plan.buys.mapM (launch.transaction viem)
    return { curve := launch.curve, native := isNativePair launch.pairToken, transactions }

variable {viem} {receipt : Receipt} {launch : ConfirmedLaunch} {plan : BundlePlan}

theorem findSome?_filter {α β : Type} {f : α → Option β} {p : α → Bool} (as : List α)
    (h : ∀ a, p a = false → f a = none) : (as.filter p).findSome? f = as.findSome? f := by
  induction as with
  | nil => rfl
  | cons a as ih =>
    cases ha : p a with
    | true => rw [List.filter_cons_of_pos ha, List.findSome?_cons, List.findSome?_cons, ih]
    | false =>
      rw [List.filter_cons_of_neg (by simp [ha]), ih, List.findSome?_cons, h a ha]

theorem Receipt.confirms_of_foreign {log : ReceiptLog} (h : log.emittedBy receipt.factory = false) :
    receipt.confirms viem log = none := if_pos h

theorem confirmed_eq_filter : confirmedLaunchFromReceipt viem receipt =
    (receipt.logs.filter (ReceiptLog.emittedBy receipt.factory)).findSome?
      (receipt.confirms viem) :=
  (findSome?_filter receipt.logs fun _ h => Receipt.confirms_of_foreign h).symm

theorem confirmed_congr {logs : List ReceiptLog}
    (h : logs.filter (ReceiptLog.emittedBy receipt.factory) =
      receipt.logs.filter (ReceiptLog.emittedBy receipt.factory)) :
    confirmedLaunchFromReceipt viem { receipt with logs } =
      confirmedLaunchFromReceipt viem receipt := by
  rw [confirmed_eq_filter, confirmed_eq_filter, ← h]
  rfl

structure Receipt.Launched (receipt : Receipt) (viem : Viem) (log : ReceiptLog)
    (launch : ConfirmedLaunch) : Prop where
  trusted : log.emittedBy receipt.factory = true
  event : ∃ decoded, decodePonsLog viem (log.toLog receipt.transactionHash) = some decoded ∧
    decoded.name = "TokenLaunched" ∧ decoded.args "curve" = some launch.curve ∧
    decoded.args "pairToken" = some launch.pairToken
  curveHasCode : launch.curveHasCode = receipt.curveHasCode

theorem launched_of_confirms {log : ReceiptLog} (h : receipt.confirms viem log = some launch) :
    receipt.Launched viem log launch := by
  unfold Receipt.confirms at h
  split at h
  · cases h
  rename_i htrusted
  split at h
  · cases h
  rename_i decoded hdecoded
  split at h
  · cases h
  rename_i hname
  split at h
  · rename_i curve pairToken hcurve hpair
    split at h
    · cases h
    · cases h
      exact ⟨by simpa using htrusted, ⟨decoded, hdecoded, not_not.mp hname, hcurve, hpair⟩, rfl⟩
  · cases h

theorem launched_of_confirmed (h : confirmedLaunchFromReceipt viem receipt = some launch) :
    ∃ log ∈ receipt.logs, receipt.Launched viem log launch := by
  obtain ⟨log, hmem, hlog⟩ := List.exists_of_findSome?_eq_some h
  exact ⟨log, hmem, launched_of_confirms hlog⟩

structure BundleTransaction.Carries (tx : BundleTransaction) (viem : Viem)
    (launch : ConfirmedLaunch) (buy : PlannedBuy) : Prop where
  toAddress : tx.toAddress = launch.curve
  data : viem.encodeFunctionData (.buy buy.amountIn buy.minOut buy.recipient) = .ok tx.data
  value : tx.value = if isNativePair launch.pairToken then buy.amountIn else 0
  recipient : tx.recipient = buy.recipient
  order : tx.order = buy.order

theorem carries_of_transaction {buy : PlannedBuy} {tx : BundleTransaction}
    (h : launch.transaction viem buy = .ok tx) : tx.Carries viem launch buy := by
  obtain ⟨data, hdata, h⟩ := bind_eq_ok.mp h
  cases h
  exact ⟨rfl, hdata, rfl, rfl, rfl⟩

theorem values_sum {buys : List PlannedBuy} {txs : List BundleTransaction}
    (h : List.Forall₂ (fun buy tx => BundleTransaction.Carries tx viem launch buy) buys txs) :
    (txs.map (·.value)).sum =
      if isNativePair launch.pairToken then (buys.map (·.amountIn)).sum else 0 := by
  induction h with
  | nil => simp
  | cons hcarries _ ih =>
    rw [List.map_cons, List.sum_cons, ih, hcarries.value, List.map_cons, List.sum_cons]
    split <;> simp

structure ExecutableBundle.Executes (bundle : ExecutableBundle) (viem : Viem) (plan : BundlePlan)
    (launch : ConfirmedLaunch) : Prop where
  curveHasCode : launch.curveHasCode = true
  curve : bundle.curve = launch.curve
  transactions : List.Forall₂ (fun buy tx => BundleTransaction.Carries tx viem launch buy)
    plan.buys bundle.transactions
  values : (bundle.transactions.map (·.value)).sum =
    if isNativePair launch.pairToken then plan.totalIn else 0

theorem totalIn_of_accepted {args : PlanBundleArgs} (h : planBundle args = .ok (.ok plan)) :
    plan.totalIn = (plan.buys.map (·.amountIn)).sum := by
  rw [(expected_of_accepted h).1.totalIn, ← (accepted_of_ok h).recipients, List.map_map]
  rfl

theorem executes_of_built {args : PlanBundleArgs} (hplan : planBundle args = .ok (.ok plan))
    {bundle : ExecutableBundle} (h : buildBundleTransactions viem plan launch = .ok bundle) :
    bundle.Executes viem plan launch := by
  unfold buildBundleTransactions at h
  split at h
  · cases h
  rename_i hcode
  obtain ⟨txs, htxs, h⟩ := bind_eq_ok.mp h
  cases h
  have hcarries := (mapM_forall₂ htxs).imp fun _ _ => carries_of_transaction
  refine ⟨by simpa using hcode, rfl, hcarries, ?_⟩
  rw [totalIn_of_accepted hplan]
  exact values_sum hcarries

theorem built_of_encodes (hcode : launch.curveHasCode = true)
    (h : ∀ buy ∈ plan.buys, ∃ data,
      viem.encodeFunctionData (.buy buy.amountIn buy.minOut buy.recipient) = .ok data) :
    ∃ bundle, buildBundleTransactions viem plan launch = .ok bundle := by
  have hall : ∀ buys : List PlannedBuy, (∀ buy ∈ buys, ∃ data,
      viem.encodeFunctionData (.buy buy.amountIn buy.minOut buy.recipient) = .ok data) →
      ∃ txs, buys.mapM (launch.transaction viem) = .ok txs := by
    intro buys hbuys
    induction buys with
    | nil => exact ⟨[], rfl⟩
    | cons buy buys ih =>
      obtain ⟨data, hdata⟩ := hbuys buy List.mem_cons_self
      obtain ⟨txs, htxs⟩ := ih fun b hb => hbuys b (List.mem_cons_of_mem _ hb)
      rw [List.mapM_cons, ConfirmedLaunch.transaction, hdata, htxs]
      exact ⟨_, rfl⟩
  obtain ⟨txs, htxs⟩ := hall plan.buys h
  refine ⟨{ curve := launch.curve, native := isNativePair launch.pairToken, transactions := txs }, ?_⟩
  rw [buildBundleTransactions, hcode, if_neg Bool.true_eq_false_eq_False, htxs]
  rfl

/-- Others cannot redirect a bundle, and it spends what was planned. -/
structure Delivers (viem : Viem) (receipt : Receipt) (plan : BundlePlan) : Prop where
  foreign : ∀ logs, logs.filter (ReceiptLog.emittedBy receipt.factory) =
      receipt.logs.filter (ReceiptLog.emittedBy receipt.factory) →
    confirmedLaunchFromReceipt viem { receipt with logs } = confirmedLaunchFromReceipt viem receipt
  launched : ∀ launch, confirmedLaunchFromReceipt viem receipt = some launch →
    ∃ log ∈ receipt.logs, receipt.Launched viem log launch
  executes : ∀ launch bundle, buildBundleTransactions viem plan launch = .ok bundle →
    bundle.Executes viem plan launch
  builds : ∀ launch : ConfirmedLaunch, launch.curveHasCode = true → (∀ buy ∈ plan.buys, ∃ data,
      viem.encodeFunctionData (.buy buy.amountIn buy.minOut buy.recipient) = .ok data) →
    ∃ bundle, buildBundleTransactions viem plan launch = .ok bundle

theorem bundle_delivers {args : PlanBundleArgs} (hplan : planBundle args = .ok (.ok plan))
    (viem : Viem) (receipt : Receipt) : Delivers viem receipt plan where
  foreign _ := confirmed_congr
  launched _ := launched_of_confirmed
  executes _ _ := executes_of_built hplan
  builds _ := built_of_encodes

def digitAddress (digit : Char) : AddressText := '0' :: 'x' :: List.replicate 40 digit

def digitWord (digit : Char) : HexText := List.replicate 24 '0' ++ List.replicate 40 digit

def numberWord (n : Int) : HexText :=
  let digits := Nat.toDigits 16 n.toNat
  List.replicate (64 - digits.length) '0' ++ digits

def digitViem : Viem where
  toEventSelector signature :=
    if signature = "TokenLaunched(address,address,address,address,uint256,uint256)" then
      "0x8d4aad4953d0ca700d468f3753aa14432d1b35b43ec6409f051fb6aa43a89607".toList
    else '0' :: 'x' :: List.replicate 64 '0'
  decodeEventLog _ data
    | [_, _, curve, _] =>
      if data.length = 2 + 3 * 64 then some fun name =>
        if name = "curve" then some ('0' :: 'x' :: curve.drop 26)
        else if name = "pairToken" then some ('0' :: 'x' :: (data.drop 26).take 40)
        else none
      else none
    | _ => none
  encodeFunctionData
    | .buy quoteIn minTokensOut recipient =>
      .ok ("0x59a87bc1".toList ++ numberWord quoteIn ++ numberWord minTokensOut ++
        List.replicate 24 '0' ++ recipient.drop 2)

def digitArgs : PlanBundleArgs :=
  { pairArgs with
    recipients := [{ address := digitAddress '1', amountIn := 200 },
      { address := digitAddress '2', amountIn := 300 }]
    exemptAddresses := [digitAddress '1', digitAddress '2'] }

def digitPlan : BundlePlan :=
  { pairPlan with
    buys := [
      { recipient := digitAddress '1', amountIn := 200, order := 0
        expectedOut := 16387, minOut := 9657 },
      { recipient := digitAddress '2', amountIn := 300, expectedOut := 16498, minOut := 15674,
        order := 1 }] }

def launchedLog (address curve : Char) : ReceiptLog where
  address := digitAddress address
  topics := ["0x8d4aad4953d0ca700d468f3753aa14432d1b35b43ec6409f051fb6aa43a89607".toList,
    '0' :: 'x' :: digitWord '3', '0' :: 'x' :: digitWord curve, '0' :: 'x' :: digitWord '4']
  data := '0' :: 'x' :: (digitWord '0' ++ numberWord 1 ++ numberWord 1)

def digitReceipt : Receipt where
  logs := [launchedLog '8' '9', launchedLog '5' '6']
  transactionHash := '0' :: 'x' :: List.replicate 64 '7'
  factory := digitAddress '5'
  curveHasCode := true

theorem bundle_delivers_digits : Delivers digitViem digitReceipt digitPlan :=
  bundle_delivers (show planBundle digitArgs = .ok (.ok digitPlan) by decide) digitViem digitReceipt

end Stunks.Pons
