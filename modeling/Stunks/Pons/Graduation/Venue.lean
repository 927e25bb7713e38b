import Stunks.Pons.Client.Reads

/-! `graduation/venue.ts`: where a launch trades. -/

namespace Stunks.Pons

structure CurveLaunch (Phase : Type) extends LaunchedToken Phase where
  curve : BitVec 160
  pairToken : BitVec 160

inductive NoVenueReason
  | sweptAwaitingPool
  | rescuedTerminal
  | notAPonsLaunch
  | poolNotRegistered
  deriving DecidableEq

structure PoolCurrencies where
  currency0 : Indexer.Address
  currency1 : Indexer.Address

inductive TradingVenue
  | curve (curve pairToken : Indexer.Address)
  | uniswapV4 (poolManager hook : Indexer.Address) (poolFee tickSpacing : Int)
      (currencies : PoolCurrencies)
  | none (reason : NoVenueReason)

structure ResolveVenueArgs where
  launch : CurveLaunch GraduationPhase
  poolManager : Indexer.Address
  memeHook : Indexer.Address
  /-- Not there until the pool is registered on the hook. -/
  poolCurrencies : Option PoolCurrencies := none

def resolveTradingVenue (args : ResolveVenueArgs) : TradingVenue :=
  let launch := args.launch
  if launch.exists_ = false then .none .notAPonsLaunch
  else
    match launch.phase with
    | .notGraduated => .curve launch.curve.toNat launch.pairToken.toNat
    | .swept => .none .sweptAwaitingPool
    | .poolCreated =>
      match args.poolCurrencies with
      | .none => .none .poolNotRegistered
      | some currencies =>
        .uniswapV4 args.poolManager args.memeHook launch.poolFee launch.tickSpacing currencies
    | .rescued => .none .rescuedTerminal

def describeNoVenue : NoVenueReason → String
  | .sweptAwaitingPool =>
    "This token has finished its bonding curve and is waiting for its Uniswap V4 " ++
      "pool to be created. Trading will resume once the pool exists. Anyone can " ++
      "trigger the remaining step."
  | .rescuedTerminal =>
    "This launch was rescued manually because its quote asset could not complete " ++
      "the pool seeding. It will not graduate and cannot be traded here."
  | .notAPonsLaunch => "This address is not a Pons V2 launch, so STUNKS cannot trade it."
  | .poolNotRegistered =>
    "This token has graduated but its pool details have not been indexed yet. " ++
      "Trading will be enabled once the pool is confirmed on-chain."

/-- Uniswap V4 has the lower currency first. -/
def orderPoolCurrencies (tokenA tokenB : Indexer.Address) : PoolCurrencies :=
  if tokenA < tokenB then { currency0 := tokenA, currency1 := tokenB }
  else { currency0 := tokenB, currency1 := tokenA }

theorem resolveTradingVenue_curve {args : ResolveVenueArgs} {curve pairToken : Indexer.Address}
    (h : resolveTradingVenue args = .curve curve pairToken) :
    args.launch.exists_ = true ∧ args.launch.phase = .notGraduated := by
  unfold resolveTradingVenue at h
  cases hexists : args.launch.exists_ with
  | false => simp [hexists] at h
  | true =>
    cases hphase : args.launch.phase with
    | notGraduated => exact ⟨rfl, rfl⟩
    | swept => simp [hexists, hphase] at h
    | poolCreated => cases hpool : args.poolCurrencies <;> simp [hexists, hphase, hpool] at h
    | rescued => simp [hexists, hphase] at h

end Stunks.Pons
