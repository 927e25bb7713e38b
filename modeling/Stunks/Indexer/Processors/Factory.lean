import Stunks.Indexer.Checkpoint
import Stunks.Indexer.Pricing
import Stunks.Pons.Client.Reads
import Stunks.Pons.Curve.Math
import Stunks.Pons.Events

/-! `processors/factory.ts` and `launch-batch.ts`: `TokenLaunched` into token rows.

Reads that the code awaits together stand one after another: they change nothing, and a failure of
any rejects them all.  Image, description and socials of a launch are left out, and a row is known
by its address instead of an id. -/

namespace Stunks.Indexer

open Database Pons

structure LaunchRecordInput where
  address : Address
  name : String
  symbol : String
  decimals : Nat
  creatorAddress : Address
  deployerAddress : Address
  curveAddress : Address
  pairTokenAddress : Address
  pairTokenDecimals : Nat
  launchConfigId : Int
  totalSupply : Int
  creatorTaxBps : Int
  buybackEnabled : Bool
  graduationThreshold : Int
  poolFee : Int
  tickSpacing : Int
  phantomQuote : Int
  reservedTokens : Int
  snipeTaxStartBps : Int
  snipeTaxSeconds : Int
  launchedAt : Int
  launchBlock : Nat
  launchTxHash : Hex
  openingPrice : Int
  openingMarketCap : Int
  openingRealQuoteReserve : Int
  deriving DecidableEq

structure Token extends LaunchRecordInput where
  phase : GraduationPhase
  deriving DecidableEq

def toTokenRow (input : LaunchRecordInput) : Token := { input with phase := .notGraduated }

/-- The addresses of tokens and of curves are unique. -/
def Token.conflicts (row stored : Token) : Bool :=
  stored.address = row.address || stored.curveAddress = row.curveAddress

/-- `skipDuplicates` -/
def insertToken (tokens : List Token) (row : Token) : List Token :=
  if tokens.any row.conflicts then tokens else tokens ++ [row]

inductive FactoryCall : Type → Type
  | warm (blockNumbers : List Nat) : FactoryCall Unit
  | blockTime (blockNumber : Nat) : FactoryCall Nat
  | getLaunchedToken (token : Address) : FactoryCall (LaunchedToken Nat)
  | tokenMetadata (token : Address) : FactoryCall TokenMetadata
  | curveState (curve : Address) : FactoryCall CurveState
  | tokenDecimals (token : Address) : FactoryCall Nat
  | transactionInput (transactionHash : Hex) : FactoryCall (List UInt8)
  | findCreators (addresses : List Address) : FactoryCall (List Address)
  | createCreators (addresses : List Address) : FactoryCall Nat
  | createTokens (rows : List Token) : FactoryCall Nat
  | findToken (address : Address) : FactoryCall (Option Token)
  | setPhase (address : Address) (phase : GraduationPhase) : FactoryCall Unit
  | deleteTokensAbove (blockNumber : Nat) : FactoryCall Unit

def FactoryCall.isRead {α : Type} : FactoryCall α → Bool
  | createCreators _ => false
  | createTokens _ => false
  | setPhase _ _ => false
  | deleteTokensAbove _ => false
  | _ => true

def FactoryCall.deletes {α : Type} : FactoryCall α → Bool
  | deleteTokensAbove _ => true
  | _ => false

abbrev FactoryProgram (H : Type) := Program H FactoryCall

variable {H α : Type}

def FactoryCall.await (call : FactoryCall α) : FactoryProgram H α := Async.await (.ext call)

def fromJs : Except JsError α → FactoryProgram H α
  | .ok a => .done (.ok a)
  | .error error => .done (.error (.error none error.message))

def unknownPhase (raw : Nat) : Failure :=
  .error none (s!"Unknown GraduationPhase value {raw}. The Pons protocol may have been " ++
    "upgraded; re-verify before trading.")

def readLaunchedToken (token : Address) : FactoryProgram H (LaunchedToken GraduationPhase) := do
  let raw ← FactoryCall.await (.getLaunchedToken token)
  match parseGraduationPhase raw.phase with
  | some phase => return { raw with phase }
  | none => Async.throw (unknownPhase raw.phase)

/-- Native ETH has 18 decimals, and so has a token that cannot be read. -/
def readPairTokenDecimals (pairToken : Address) : FactoryProgram H Nat := do
  if pairToken = 0 then return 18
  else
    let decimals ← (FactoryCall.await (.tokenDecimals pairToken)).attempt
    match decimals with
    | .ok decimals => return decimals
    | .error _ => return 18

def readLaunchCalldata (transactionHash : Hex) : FactoryProgram H (Option (List UInt8)) := do
  let input ← (FactoryCall.await (.transactionInput transactionHash)).attempt
  match input with
  | .ok input => return some input
  | .error _ => return none

def describeLaunch (args : TokenLaunched) (raw : RawLog H) (launch : LaunchedToken GraduationPhase)
    (metadata : TokenMetadata) (curveState : CurveState) (pairTokenDecimals : Nat) :
    Except JsError LaunchRecordInput := do
  let reservedTokens ← computeReservedTokens metadata.totalSupply curveState.phantomQuote
    curveState.graduationThreshold
  let openingPrice ← priceFromReserves curveState.pricingQuoteReserve curveState.tokenReserve
  let openingMarketCap ← marketCapFromPrice openingPrice metadata.totalSupply
  return {
    address := args.token
    name := metadata.name
    symbol := metadata.symbol
    decimals := metadata.decimals
    creatorAddress := launch.creatorFeeRecipient
    deployerAddress := args.deployer
    curveAddress := args.curve
    pairTokenAddress := args.pairToken
    pairTokenDecimals
    launchConfigId := args.launchConfigId
    totalSupply := metadata.totalSupply
    creatorTaxBps := launch.creatorTaxBps
    buybackEnabled := launch.buybackEnabled
    graduationThreshold := launch.graduationThreshold
    poolFee := launch.poolFee
    tickSpacing := launch.tickSpacing
    phantomQuote := curveState.phantomQuote
    reservedTokens
    snipeTaxStartBps := curveState.snipeTaxStartBps
    snipeTaxSeconds := curveState.snipeTaxSeconds
    launchedAt := curveState.launchedAt * 1000
    launchBlock := raw.blockNumber
    launchTxHash := raw.transactionHash
    openingPrice
    openingMarketCap
    openingRealQuoteReserve := curveState.realQuoteReserve }

def readLaunch (args : TokenLaunched) (raw : RawLog H) :
    FactoryProgram H (Option LaunchRecordInput) := do
  let launch ← readLaunchedToken args.token
  if launch.exists_ = false then return none
  else
    let metadata ← FactoryCall.await (.tokenMetadata args.token)
    let curveState ← FactoryCall.await (.curveState args.curve)
    let pairTokenDecimals ← readPairTokenDecimals args.pairToken
    let _ ← FactoryCall.await (.blockTime raw.blockNumber)
    let _ ← readLaunchCalldata raw.transactionHash
    let input ← fromJs (describeLaunch args raw launch metadata curveState pairTokenDecimals)
    return some input

/-- `none` when the launch cannot be described accurately. -/
def prepareLaunch (args : TokenLaunched) (raw : RawLog H) :
    FactoryProgram H (Option LaunchRecordInput) := do
  let prepared ← (readLaunch args raw).attempt
  match prepared with
  | .ok input => return input
  | .error _ => return none

def prepareLaunches :
    List (TokenLaunched × RawLog H) → FactoryProgram H (List (Option LaunchRecordInput))
  | [] => return []
  | (args, raw) :: rest => do
    let input ← prepareLaunch args raw
    let inputs ← prepareLaunches rest
    return input :: inputs

structure BatchResult where
  creatorsCreated : Nat
  tokensCreated : Nat
  skipped : Nat

def ensureCreators (creatorAddresses : List Address) : FactoryProgram H (Nat × List Address) := do
  let existing ← FactoryCall.await (.findCreators creatorAddresses)
  let missing := creatorAddresses.filter fun address => address ∉ existing
  if missing.length > 0 then do
    let count ← FactoryCall.await (.createCreators missing)
    let created ← FactoryCall.await (.findCreators missing)
    return (count, existing ++ created)
  else return (0, existing)

/-- The rows of step 3.  A launch whose creator is not there is left for the next scan. -/
def tokenRows (creators : List Address) (unique : List LaunchRecordInput) : List Token :=
  (unique.filter fun launch => launch.creatorAddress ∈ creators).map toTokenRow

def recordLaunches (launches : List LaunchRecordInput) : FactoryProgram H BatchResult := do
  if launches.length = 0 then
    return { creatorsCreated := 0, tokensCreated := 0, skipped := 0 }
  else
    let unique := Table.upsertMany LaunchRecordInput.address [] launches
    let creatorAddresses := (unique.map LaunchRecordInput.creatorAddress).eraseDups
    let (creatorsCreated, creators) ← ensureCreators creatorAddresses
    let rows := tokenRows creators unique
    let skipped := unique.length - rows.length
    if rows.length > 0 then do
      let tokensCreated ← FactoryCall.await (.createTokens rows)
      return { creatorsCreated, tokensCreated, skipped }
    else return { creatorsCreated, tokensCreated := 0, skipped }

def syncPhase (token : Address) : FactoryProgram H Bool := do
  let existing ← FactoryCall.await (.findToken token)
  match existing with
  | none => return false
  | some existing =>
    let launch ← readLaunchedToken token
    if launch.exists_ = false then return false
    else if existing.phase = launch.phase then return false
    else
      FactoryCall.await (.setPhase existing.address launch.phase)
      return true

def syncPhases : List Address → FactoryProgram H Nat
  | [] => return 0
  | token :: rest => do
    let changed ← syncPhase token
    let count ← syncPhases rest
    return (if changed then count + 1 else count)

section process

variable (decodePonsLog : RawLog H → Option PonsEvent)

def launchLog (raw : RawLog H) : Option (TokenLaunched × RawLog H) :=
  match decodePonsLog raw with
  | some (.tokenLaunched args) => some (args, raw)
  | _ => none

def phaseChange (raw : RawLog H) : Option Address :=
  match decodePonsLog raw with
  | some (.launchSwept token) => some token
  | some (.launchForceSwept token) => some token
  | some (.poolGraduated token) => some token
  | some (.graduationTokensPermanentlyLocked token) => some token
  | _ => none

structure ProcessResult where
  launches : Nat
  phaseUpdates : Nat
  skipped : Nat

def processFactoryLogs (logs : List (RawLog H)) : FactoryProgram H ProcessResult := do
  FactoryCall.await (.warm (logs.map RawLog.blockNumber))
  let launchLogs := logs.filterMap (launchLog decodePonsLog)
  let phaseChanges := logs.filterMap (phaseChange decodePonsLog)
  let unknown := logs.length - launchLogs.length - phaseChanges.length
  let prepared ← prepareLaunches launchLogs
  let inputs := prepared.reduceOption
  let result ← recordLaunches inputs
  let phaseUpdates ← syncPhases phaseChanges.eraseDups
  return { launches := result.tokensCreated
           phaseUpdates
           skipped := unknown + (prepared.length - inputs.length) + result.skipped }

end process

end Stunks.Indexer
