import Stunks.Indexer.Sources.Types

/-! `client/reads.ts`: what is read from the chain. -/

namespace Stunks.Pons

inductive GraduationPhase
  | notGraduated
  | swept
  | poolCreated
  | rescued
  deriving DecidableEq

/-- Throws on an unknown value rather than defaulting. -/
def parseGraduationPhase : Nat → Option GraduationPhase
  | 0 => some .notGraduated
  | 1 => some .swept
  | 2 => some .poolCreated
  | 3 => some .rescued
  | _ => none

structure LaunchedToken (Phase : Type) where
  creatorFeeRecipient : Indexer.Address
  graduationThreshold : Int
  poolFee : Int
  tickSpacing : Int
  creatorTaxBps : Int
  buybackEnabled : Bool
  phase : Phase
  exists_ : Bool

structure TokenMetadata where
  name : String
  symbol : String
  decimals : Nat
  totalSupply : Int

/-- Native ETH is the zero address. -/
def isNativeQuote (pairToken : Indexer.Address) : Bool := pairToken = 0

structure CurveState where
  curve : Indexer.Address
  pairToken : Indexer.Address
  pricingQuoteReserve : Int
  realQuoteReserve : Int
  tokenReserve : Int
  phantomQuote : Int
  reservedTokens : Int
  graduationThreshold : Int
  feeBps : Int
  creatorTaxBps : Int
  graduated : Bool
  readyToGraduate : Bool
  launchedAt : Int
  snipeTaxStartBps : Int
  snipeTaxSeconds : Int

end Stunks.Pons
